import Typings.Proofs.Text.Basic
import Typings.Text.Line

/-!
# Lines of a composed text

A line feed ends a line, whatever follows it, so the lines of a text can be read off the pieces that
it was put together from.
-/

namespace Typings.Text

theorem mem_consFirst {c : Char} {ls : List Text} {l : Text} (h : l ∈ consFirst c ls) :
    l ∈ ls ∨ ∃ l', l = c :: l' ∧ (l' = [] ∨ l' ∈ ls) := by
  cases ls with
  | nil => exact .inr ⟨[], by simpa [consFirst] using h⟩
  | cons x ls =>
    rcases List.mem_cons.mp h with rfl | h
    · exact .inr ⟨x, rfl, .inr List.mem_cons_self⟩
    · exact .inl (List.mem_cons_of_mem x h)

/-- No line holds a line feed. -/
theorem newline_notMem_of_mem_lines {s l : Text} (h : l ∈ lines s) : '\n' ∉ l := by
  induction s using lines.induct generalizing l with
  | case1 => simp [lines] at h
  | case2 r ih =>
    rcases List.mem_cons.mp h with rfl | h
    · simp
    · exact ih h
  | case3 r ih =>
    rcases List.mem_cons.mp h with rfl | h
    · simp
    · exact ih h
  | case4 c r hn hr ih =>
    rw [lines.eq_4 c r hn hr] at h
    rcases mem_consFirst h with h | ⟨l', rfl, rfl | h⟩
    · exact ih h
    · simpa using fun e ↦ hn e.symm
    · simpa using ⟨fun e ↦ hn e.symm, ih h⟩

theorem subset_of_mem_lines {s l : Text} (h : l ∈ lines s) : l ⊆ s := by
  induction s using lines.induct generalizing l with
  | case1 => cases h
  | case2 r ih =>
    rcases List.mem_cons.mp h with rfl | h
    · exact List.nil_subset _
    · exact List.Subset.trans (ih h) (List.subset_cons_self _ r)
  | case3 r ih =>
    rcases List.mem_cons.mp h with rfl | h
    · exact List.nil_subset _
    · exact List.Subset.trans (ih h) (List.subset_append_right ['\r', '\n'] r)
  | case4 c r hn hr ih =>
    rw [lines.eq_4 c r hn hr] at h
    rcases mem_consFirst h with h | ⟨l', rfl, rfl | h⟩
    · exact List.Subset.trans (ih h) (List.subset_cons_self c r)
    · simp
    · exact List.cons_subset_cons c (ih h)

/-- Text in front of a line without a line feed of its own belongs to that line. -/
theorem lines_append {a s line : Text} {ls : List Text} (ha : '\n' ∉ a) (hs : s.head? ≠ some '\n')
    (h : lines s = line :: ls) : lines (a ++ s) = (a ++ line) :: ls := by
  induction a with
  | nil => exact h
  | cons c a ih =>
    rw [List.mem_cons, not_or] at ha
    have hc : c = '\n' → False := fun e ↦ ha.1 e.symm
    have hcr : ∀ r, c = '\r' → a ++ s = '\n' :: r → False := by
      intro r _ e
      cases a with
      | nil => exact hs (by rw [List.nil_append] at e; rw [e]; rfl)
      | cons d a => exact ha.2 (by rw [(List.cons.inj e).1]; exact List.mem_cons_self)
    rw [List.cons_append, lines.eq_4 _ _ hc hcr, ih ha.2, consFirst, List.cons_append]

/-- A text without line feeds is a line if one follows. A carriage return at its end would belong to
the line feed. -/
theorem lines_append_newline {a : Text} (hn : '\n' ∉ a) (hr : a.getLast? ≠ some '\r') (b : Text) :
    lines (a ++ '\n' :: b) = a :: lines b := by
  induction a with
  | nil => rfl
  | cons c a ih =>
    rw [List.mem_cons, not_or] at hn
    have hc : c = '\n' → False := fun e ↦ hn.1 e.symm
    have hcr : ∀ r, c = '\r' → a ++ '\n' :: b = '\n' :: r → False := by
      intro r hc e
      cases a with
      | nil => simp [hc] at hr
      | cons d a =>
        have hd : d = '\n' := (List.cons.inj e).1
        exact hn.2 (by simp [hd])
    have ha : a.getLast? ≠ some '\r' := by
      cases a with
      | nil => simp
      | cons d a => simpa [List.getLast?_cons_cons] using hr
    rw [List.cons_append, lines.eq_4 _ _ hc hcr, ih hn.2 ha, consFirst]

theorem lines_ne_nil {s : Text} (h : s ≠ []) : lines s ≠ [] := by
  induction s using lines.induct with
  | case1 => exact absurd rfl h
  | case2 r ih => exact List.cons_ne_nil _ _
  | case3 r ih => exact List.cons_ne_nil _ _
  | case4 c r hn hr ih =>
    rw [lines.eq_4 c r hn hr]
    cases lines r <;> exact List.cons_ne_nil _ _

theorem consFirst_append {ls : List Text} (h : ls ≠ []) (c : Char) (ls' : List Text) :
    consFirst c (ls ++ ls') = consFirst c ls ++ ls' := by
  obtain ⟨l, ls, rfl⟩ := List.exists_cons_of_ne_nil h
  rfl

/-- A carriage return right before a line feed belongs to the end of the line. -/
theorem lines_append_return {a : Text} (hn : '\n' ∉ a) (b : Text) :
    lines (a ++ '\r' :: '\n' :: b) = a :: lines b := by
  induction a with
  | nil => rfl
  | cons c a ih =>
    rw [List.mem_cons, not_or] at hn
    have hc : c = '\n' → False := fun e ↦ hn.1 e.symm
    have hcr : ∀ r, c = '\r' → a ++ '\r' :: '\n' :: b = '\n' :: r → False := by
      intro r _ e
      cases a with
      | nil => cases e
      | cons d a =>
        have hd : d = '\n' := (List.cons.inj e).1
        exact hn.2 (by simp [hd])
    rw [List.cons_append, lines.eq_4 _ _ hc hcr, ih hn.2, consFirst]

/-- What ends with a line feed is a line, but for a carriage return at its end. -/
theorem exists_lines_append_newline {a : Text} (hn : '\n' ∉ a) (b : Text) :
    ∃ line tail, a = line ++ tail ∧ (tail = [] ∨ tail = ['\r']) ∧
      lines (a ++ '\n' :: b) = line :: lines b := by
  by_cases hr : a.getLast? = some '\r'
  · obtain ⟨line, rfl⟩ := List.getLast?_eq_some_iff.mp hr
    have hline : '\n' ∉ line := fun h ↦ hn (List.mem_append_left _ h)
    refine ⟨line, ['\r'], rfl, .inr rfl, ?_⟩
    rw [List.append_assoc]
    exact lines_append_return hline b
  · exact ⟨a, [], (List.append_nil a).symm, .inl rfl, lines_append_newline hn hr b⟩

/-! ## Whole lines -/

/-- The text is made of whole lines, each with its line feed. What follows it starts a line. -/
def WholeLines (s : Text) : Prop := s = [] ∨ s.getLast? = some '\n'

instance : DecidablePred WholeLines := fun s ↦
  inferInstanceAs (Decidable (s = [] ∨ s.getLast? = some '\n'))

theorem WholeLines.of_cons {c : Char} {s : Text} (h : WholeLines (c :: s)) : WholeLines s := by
  cases s with
  | nil => exact .inl rfl
  | cons d s => exact .inr (by simpa [WholeLines] using h)

theorem WholeLines.append {a b : Text} (ha : WholeLines a) (hb : WholeLines b) :
    WholeLines (a ++ b) := by
  rcases hb with rfl | hb
  · rwa [List.append_nil]
  · exact .inr (by rw [List.getLast?_append, hb]; rfl)

/-- Behind whole lines the lines are those of the rest. -/
theorem WholeLines.lines_append {a : Text} (ha : WholeLines a) (b : Text) :
    lines (a ++ b) = lines a ++ lines b := by
  induction a using lines.induct with
  | case1 => rfl
  | case2 r ih => exact congrArg ([] :: ·) (ih ha.of_cons)
  | case3 r ih => exact congrArg ([] :: ·) (ih ha.of_cons.of_cons)
  | case4 c r hn hr ih =>
    cases r with
    | nil =>
      rcases ha with h | h
      · cases h
      · exact absurd (Option.some.inj h) hn
    | cons d r =>
      have hcr : ∀ r', c = '\r' → d :: r ++ b = '\n' :: r' → False :=
        fun _ hc e ↦ hr r hc (by rw [(List.cons.inj e).1])
      rw [List.cons_append, lines.eq_4 c _ hn hcr, lines.eq_4 c _ hn hr, ih ha.of_cons,
        consFirst_append (lines_ne_nil (List.cons_ne_nil d r))]

/-! ## The first line -/

theorem lines_of_notMem {s : Text} (hs : s ≠ []) (hn : '\n' ∉ s) : lines s = [s] := by
  cases s using List.reverseRecOn with
  | nil => exact absurd rfl hs
  | append_singleton a c =>
    rw [List.mem_append, List.mem_singleton, not_or] at hn
    have hc : lines [c] = [[c]] := lines.eq_4 c [] (fun e ↦ hn.2 e.symm) (fun r _ e ↦ by cases e)
    have hhead : [c].head? ≠ some '\n' := fun e ↦ hn.2 (Option.some.inj e).symm
    rw [lines_append hn.1 hhead hc]

/-- What follows the first line, and the end of it, is read line by line itself. -/
theorem exists_first_line {s : Text} (hs : s ≠ []) : ∃ line ending rest, s = line ++ ending ++ rest ∧
    lines s = line :: lines rest ∧ (rest = [] ∨ WholeLines (line ++ ending)) := by
  by_cases hn : '\n' ∈ s
  · obtain ⟨a, rest, rfl, ha⟩ := List.eq_append_cons_of_mem hn
    obtain ⟨line, tail, rfl, -, hlines⟩ := exists_lines_append_newline ha rest
    exact ⟨line, tail ++ ['\n'], rest, by simp, hlines, .inr (.inr (by simp))⟩
  · exact ⟨s, [], [], by simp, lines_of_notMem hs hn, .inl rfl⟩

/-! ## The last line -/

theorem exists_wholeLines_append (s : Text) :
    ∃ a line, s = a ++ line ∧ WholeLines a ∧ '\n' ∉ line := by
  induction s using List.reverseRecOn with
  | nil => exact ⟨[], [], rfl, .inl rfl, List.not_mem_nil⟩
  | append_singleton s c ih =>
    by_cases hc : c = '\n'
    · exact ⟨s ++ [c], [], by simp, .inr (by simp [hc]), List.not_mem_nil⟩
    · obtain ⟨a, line, rfl, ha, hline⟩ := ih
      exact ⟨a, line ++ [c], by simp, ha, by simp [hline, Ne.symm hc]⟩

/-- A line feed ends the last line of a text, which it is not part of itself. -/
theorem lines_append_newline_of_last {a : Text} (ha : a ≠ [])
    (hlast : ∀ c ∈ a.getLast?, c ≠ '\n' ∧ c ≠ '\r') (b : Text) :
    lines (a ++ '\n' :: b) = lines a ++ lines b := by
  obtain ⟨a, line, rfl, hwhole, hline⟩ := exists_wholeLines_append a
  have hne : line ≠ [] := by
    rintro rfl
    rw [List.append_nil] at ha hlast
    exact (hlast _ (hwhole.resolve_left ha)).1 rfl
  rw [List.getLast?_append_of_ne_nil _ hne] at hlast
  have hreturn : line.getLast? ≠ some '\r' := fun h ↦ (hlast _ h).2 rfl
  rw [List.append_assoc, hwhole.lines_append, hwhole.lines_append,
    lines_append_newline hline hreturn, lines_of_notMem hne hline, List.append_assoc,
    List.singleton_append]

end Typings.Text
