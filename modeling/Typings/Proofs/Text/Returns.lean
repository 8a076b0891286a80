import Typings.Proofs.Text.Line

/-!
# Carriage returns at the ends of lines

`Returned` texts differ in carriage returns in front of line feeds.  A reader that does not tell a
carriage return from a line feed takes parts of them that differ in nothing else either, and the same
parts where no line feed is in them.  Line by line they are the same but for blanks at the ends
(`Returned.map_trim_lines`).
-/

namespace Typings.Text

variable {p : Char → Bool} {c : Char} {s t s' t' w : Text} {stop : Text → Bool}

/-- The text with a carriage return in front of each of its line feeds. -/
def withReturns (s : Text) : Text := s.flatMap fun c ↦ if c = '\n' then ['\r', '\n'] else [c]

/-- The text `t` is `s` with carriage returns in front of some of its line feeds. -/
inductive Returned : Text → Text → Prop
  | nil : Returned [] []
  | cons {s t : Text} (c : Char) : Returned s t → Returned (c :: s) (c :: t)
  | newline {s t : Text} : Returned s t → Returned ('\n' :: s) ('\r' :: '\n' :: t)

theorem returned_withReturns (s : Text) : Returned s (withReturns s) := by
  induction s with
  | nil => exact .nil
  | cons c s ih =>
    rw [withReturns, List.flatMap_cons]
    split
    · next hc =>
      subst hc
      exact .newline ih
    · exact .cons c ih

namespace Returned

theorem append (h : Returned s t) (h' : Returned s' t') : Returned (s ++ s') (t ++ t') := by
  induction h with
  | nil => exact h'
  | cons c _ ih => exact .cons c ih
  | newline _ ih => exact .newline ih

/-- Without line feeds there is no difference. -/
theorem eq (h : Returned s t) (hs : '\n' ∉ s) : t = s := by
  induction h with
  | nil => rfl
  | cons c _ ih =>
    rw [List.mem_cons, not_or] at hs
    rw [ih hs.2]
  | newline => exact absurd List.mem_cons_self hs

theorem nil_iff (h : Returned s t) : t = [] ↔ s = [] := by
  cases h <;> simp

/-- A first character is the same unless it is a line feed. -/
theorem cons_of_ne (h : Returned (c :: s) t) (hc : c ≠ '\n') :
    ∃ t', t = c :: t' ∧ Returned s t' := by
  cases h with
  | cons _ h => exact ⟨_, rfl, h⟩
  | newline => exact absurd rfl hc

theorem mem_iff (h : Returned s t) (hr : c ≠ '\r') : c ∈ t ↔ c ∈ s := by
  induction h with
  | nil => rfl
  | cons d _ ih => rw [List.mem_cons, List.mem_cons, ih]
  | newline _ ih => simp [ih, hr]

/-- Of a text without line feeds the texts are both equal to it, or neither is. -/
theorem eq_iff (h : Returned s t) (hn : '\n' ∉ w) : t = w ↔ s = w := by
  constructor
  · rintro rfl
    exact (h.eq (mt (h.mem_iff (by decide)).mpr hn)).symm
  · rintro rfl
    exact h.eq hn

/-- The parts of a text are returned each by itself. -/
theorem exists_append (h : Returned (s ++ s') t) :
    ∃ u v, t = u ++ v ∧ Returned s u ∧ Returned s' v := by
  induction s generalizing t with
  | nil => exact ⟨[], t, rfl, .nil, h⟩
  | cons c s ih =>
    generalize hw : c :: s ++ s' = w at h
    cases h with
    | nil => cases hw
    | cons _ h =>
      obtain ⟨rfl, rfl⟩ := List.cons.inj hw
      obtain ⟨u, v, rfl, hu, hv⟩ := ih h
      exact ⟨c :: u, v, rfl, hu.cons c, hv⟩
    | newline h =>
      obtain ⟨rfl, rfl⟩ := List.cons.inj hw
      obtain ⟨u, v, rfl, hu, hv⟩ := ih h
      exact ⟨'\r' :: '\n' :: u, v, rfl, hu.newline, hv⟩

theorem head?_eq_some_iff (h : Returned s t) (hr : c ≠ '\r') (hn : c ≠ '\n') :
    t.head? = some c ↔ s.head? = some c := by
  cases h with
  | nil => rfl
  | cons => rfl
  | newline => simp [hr.symm, hn.symm]

/-! ## Runs -/

theorem takeWhile (h : Returned s t) (hp : p '\r' = p '\n') :
    Returned (s.takeWhile p) (t.takeWhile p) := by
  induction h with
  | nil => exact .nil
  | cons c _ ih =>
    rw [List.takeWhile_cons, List.takeWhile_cons]
    split
    · exact .cons c ih
    · exact .nil
  | newline _ ih =>
    rw [List.takeWhile_cons, List.takeWhile_cons, List.takeWhile_cons, hp]
    split
    · exact .newline ih
    · exact .nil

theorem dropWhile (h : Returned s t) (hp : p '\r' = p '\n') :
    Returned (s.dropWhile p) (t.dropWhile p) := by
  induction h with
  | nil => exact .nil
  | cons c h ih =>
    rw [List.dropWhile_cons, List.dropWhile_cons]
    split
    · exact ih
    · exact .cons c h
  | newline h ih =>
    rw [List.dropWhile_cons, List.dropWhile_cons, List.dropWhile_cons, hp]
    split
    · exact ih
    · exact .newline h

/-- A run without line feeds is the same. -/
theorem takeWhile_eq (h : Returned s t) (hr : p '\r' = false) (hn : p '\n' = false) :
    t.takeWhile p = s.takeWhile p := by
  refine (h.takeWhile (hr.trans hn.symm)).eq fun hmem ↦ ?_
  rw [List.mem_takeWhile_imp hmem] at hn
  cases hn

theorem trimStart (h : Returned s t) : Returned (trimStart s) (trimStart t) := h.dropWhile rfl

theorem firstWord_eq (h : Returned s t) : firstWord t = firstWord s :=
  h.trimStart.takeWhile_eq rfl rfl

/-! ## Patterns -/

/-- What follows a text without line feeds is returned by itself. -/
theorem of_append (w : Text) (h : Returned (w ++ s) t) (hw : '\n' ∉ w) :
    ∃ t', t = w ++ t' ∧ Returned s t' := by
  obtain ⟨u, t', rfl, hu, ht'⟩ := h.exists_append
  exact ⟨t', by rw [hu.eq hw], ht'⟩

/-- What precedes a text without carriage returns is as long. -/
theorem to_append (w : Text) (h : Returned s (w ++ t)) (hw : '\r' ∉ w) :
    ∃ s', s = w ++ s' ∧ Returned s' t := by
  induction w generalizing s with
  | nil => exact ⟨s, rfl, h⟩
  | cons c w ih =>
    rw [List.mem_cons, not_or] at hw
    generalize hu : c :: w ++ t = u at h
    cases h with
    | nil => cases hu
    | cons _ h =>
      obtain ⟨rfl, rfl⟩ := List.cons.inj hu
      obtain ⟨s', rfl, h'⟩ := ih h hw.2
      exact ⟨s', rfl, h'⟩
    | newline => exact absurd (List.cons.inj hu).1.symm hw.1

theorem isPrefixOf_eq (h : Returned s t) (hr : '\r' ∉ w) (hn : '\n' ∉ w) :
    w.isPrefixOf t = w.isPrefixOf s := by
  rw [Bool.eq_iff_iff, List.isPrefixOf_iff_prefix, List.isPrefixOf_iff_prefix]
  constructor
  · rintro ⟨t', rfl⟩
    obtain ⟨s', rfl, -⟩ := to_append w h hr
    exact List.prefix_append w s'
  · rintro ⟨s', rfl⟩
    obtain ⟨t', rfl, -⟩ := of_append w h hn
    exact List.prefix_append w t'

theorem drop (h : Returned s t) (hs : w <+: s) (hw : '\n' ∉ w) :
    Returned (s.drop w.length) (t.drop w.length) := by
  obtain ⟨s', rfl⟩ := hs
  obtain ⟨t', rfl, h'⟩ := of_append w h hw
  rwa [List.drop_left, List.drop_left]

/-! ## Cuts -/

/-- The texts are cut at the same places. -/
theorem breakAt (hstop : ∀ {u v}, Returned u v → stop v = stop u) (h : Returned s t) :
    Returned (breakAt stop s).1 (breakAt stop t).1 ∧
      Returned (breakAt stop s).2 (breakAt stop t).2 := by
  induction h with
  | nil => exact ⟨.nil, .nil⟩
  | @cons s t c h ih =>
    rw [Text.breakAt, Text.breakAt, hstop (h.cons c)]
    split
    · exact ⟨.nil, h.cons c⟩
    · exact ⟨ih.1.cons c, ih.2⟩
  | @newline s t h ih =>
    rw [Text.breakAt, Text.breakAt, hstop h.newline]
    split
    · exact ⟨.nil, h.newline⟩
    · next hgoes =>
      -- the line feed behind the carriage return is no place for a cut either
      rw [Text.breakAt, if_neg (by rwa [hstop (h.cons '\n')])]
      exact ⟨ih.1.newline, ih.2⟩

end Returned

/-! ## Lines -/

theorem trimEnd_cons_trimEnd (c : Char) (s : Text) :
    trimEnd (c :: trimEnd s) = trimEnd (c :: s) := by
  obtain ⟨b, hb, h⟩ := exists_eq_trimEnd_append s
  conv_rhs => rw [h]
  exact (trimEnd_append_blank hb (c :: trimEnd s)).symm

/-- Blanks at the ends aside, a carriage return is part of a line as any other character. -/
theorem map_trimEnd_lines_cons (hc : c ≠ '\n') (s : Text) :
    (lines (c :: s)).map trimEnd = (consFirst c ((lines s).map trimEnd)).map trimEnd := by
  have hfirst : ∀ ls : List Text,
      (consFirst c ls).map trimEnd = (consFirst c (ls.map trimEnd)).map trimEnd := by
    intro ls
    cases ls with
    | nil => rfl
    | cons l ls => simp [consFirst, trimEnd_cons_trimEnd]
  rw [← hfirst]
  by_cases hr : c = '\r' ∧ ∃ r, s = '\n' :: r
  · obtain ⟨rfl, r, rfl⟩ := hr
    rfl
  · rw [lines.eq_4 c s hc fun r hc hs ↦ hr ⟨hc, r, hs⟩]

namespace Returned

theorem map_trimEnd_lines (h : Returned s t) :
    (lines t).map trimEnd = (lines s).map trimEnd := by
  induction h with
  | nil => rfl
  | cons c _ ih =>
    by_cases hc : c = '\n'
    · subst hc
      exact congrArg ([] :: ·) ih
    · rw [map_trimEnd_lines_cons hc, map_trimEnd_lines_cons hc, ih]
  | newline _ ih => exact congrArg ([] :: ·) ih

/-- Line by line the texts are the same but for blanks at the ends. -/
theorem map_trim_lines (h : Returned s t) : (lines t).map trim = (lines s).map trim := by
  have hlines := congrArg (List.map trim) h.map_trimEnd_lines
  simpa only [List.map_map, Function.comp_def, trim_trimEnd] using hlines

end Returned

end Typings.Text
