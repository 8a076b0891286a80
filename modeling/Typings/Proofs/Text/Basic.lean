import Mathlib.Data.List.DropRight
import Typings.Text.Basic

/-!
# Runs, blanks and cuts

What the readers of a text rest on: a run of characters of one class ends where the next character
leaves the class, trimming takes off the blanks at an end and nothing else, and a text is cut in
front of the first position that stops it.
-/

namespace Typings.Text

variable {p : Char → Bool} {s t w b : Text}

/-! ## Runs -/

/-- No run of the class `p` goes on into `s`: the text is empty or starts outside the class. -/
def Stops (p : Char → Bool) (s : Text) : Prop := ∀ c ∈ s.head?, p c = false

@[simp] theorem stops_nil : Stops p [] := by simp [Stops]

@[simp] theorem stops_cons {c : Char} : Stops p (c :: s) ↔ p c = false := by simp [Stops]

theorem stops_dropWhile (p : Char → Bool) (s : Text) : Stops p (s.dropWhile p) := by
  intro c hc
  have := List.head?_dropWhile_not p s
  rw [Option.mem_def.mp hc] at this
  simpa using this

theorem takeWhile_append_of_stops (hw : ∀ c ∈ w, p c = true) (hs : Stops p s) :
    (w ++ s).takeWhile p = w := by
  rw [List.takeWhile_append_of_pos hw]
  cases s with
  | nil => simp
  | cons c r => simp [stops_cons.mp hs]

theorem dropWhile_append_of_stops (hw : ∀ c ∈ w, p c = true) (hs : Stops p s) :
    (w ++ s).dropWhile p = s := by
  rw [List.dropWhile_append_of_pos hw]
  cases s with
  | nil => simp
  | cons c r => simp [stops_cons.mp hs]

theorem bne_of_notMem {x : Char} (h : x ∉ s) : ∀ c ∈ s, (c != x) = true := by
  intro c hc
  rw [bne_iff_ne]
  rintro rfl
  exact h hc

/-! ## Blanks -/

@[simp] theorem isBlankText_iff : isBlankText s = true ↔ ∀ c ∈ s, isBlank c = true :=
  List.all_eq_true

theorem notMem_of_isBlankText {c : Char} (hs : isBlankText s = true) (hc : isBlank c = false) :
    c ∉ s := by
  intro hm
  rw [isBlankText_iff.mp hs c hm] at hc
  cases hc

/-- A character is not blank if it belongs to a class that no blank belongs to. -/
theorem isBlank_eq_false {c : Char} (hp : ∀ {c}, isBlank c = true → p c = false)
    (h : p c = true) : isBlank c = false := by
  rw [← Bool.not_eq_true]
  intro hb
  rw [hp hb] at h
  cases h

theorem isBlankText_takeWhile (s : Text) : isBlankText (s.takeWhile isBlank) = true :=
  List.all_takeWhile

theorem trimStart_blank_append (hb : isBlankText b = true) (s : Text) :
    trimStart (b ++ s) = trimStart s :=
  List.dropWhile_append_of_pos (isBlankText_iff.mp hb)

theorem trimStart_of_stops (hs : Stops isBlank s) : trimStart s = s :=
  dropWhile_append_of_stops (w := []) (by simp) hs

theorem trimEnd_eq_rdropWhile (s : Text) : trimEnd s = s.rdropWhile isBlank := rfl

@[simp] theorem trimEnd_nil : trimEnd [] = [] := rfl

theorem trimEnd_eq_nil_iff : trimEnd s = [] ↔ isBlankText s = true := by
  rw [trimEnd_eq_rdropWhile, List.rdropWhile_eq_nil_iff, isBlankText_iff]

@[simp] theorem trimEnd_trimEnd (s : Text) : trimEnd (trimEnd s) = trimEnd s :=
  List.rdropWhile_idempotent _ _

theorem trimEnd_append_blank (hb : isBlankText b = true) (s : Text) :
    trimEnd (s ++ b) = trimEnd s := by
  unfold trimEnd
  rw [List.reverse_append, List.dropWhile_append_of_pos]
  simpa using hb

/-- Trimming the end of a text sees only its last part, unless that part is blank. -/
theorem trimEnd_append (ht : isBlankText t = false) (s : Text) :
    trimEnd (s ++ t) = s ++ trimEnd t := by
  have hne : (t.reverse.dropWhile isBlank).isEmpty = false := by
    rw [List.isEmpty_eq_false_iff]
    intro h
    have : isBlankText t = true := trimEnd_eq_nil_iff.mp (by rw [trimEnd, h, List.reverse_nil])
    simp [this] at ht
  simp [trimEnd, List.dropWhile_append, hne]

theorem trimEnd_append_of_eq (hs : trimEnd s = s) (t : Text) :
    trimEnd (s ++ t) = s ++ trimEnd t := by
  by_cases ht : isBlankText t = true
  · rw [trimEnd_append_blank ht, hs, trimEnd_eq_nil_iff.mpr ht, List.append_nil]
  · exact trimEnd_append (Bool.not_eq_true _ ▸ ht) s

theorem exists_eq_trimEnd_append (s : Text) : ∃ b, isBlankText b = true ∧ s = trimEnd s ++ b := by
  refine ⟨(s.reverse.takeWhile isBlank).reverse, ?_, ?_⟩
  · rw [isBlankText, List.all_reverse]
    exact isBlankText_takeWhile _
  · rw [trimEnd, ← List.reverse_append, List.takeWhile_append_dropWhile, List.reverse_reverse]

theorem trimEnd_concat {c : Char} (hc : isBlank c = false) (s : Text) :
    trimEnd (s ++ [c]) = s ++ [c] := by
  rw [trimEnd_append (by simp [isBlankText, hc])]
  simp [trimEnd, hc]

theorem trimEnd_eq_self_iff : trimEnd s = s ↔ ∀ c ∈ s.getLast?, isBlank c = false := by
  rw [trimEnd_eq_rdropWhile, List.rdropWhile_eq_self_iff]
  cases s using List.reverseRecOn with
  | nil => simp
  | append_singleton init x => simp

/-- A text with a character that is not blank at either end is what trimming leaves of it between
blanks. -/
theorem trim_blank_append_blank {a : Text} (ha : isBlankText a = true) (hb : isBlankText b = true)
    (hs : Stops isBlank s) (he : trimEnd s = s) : trim (a ++ s ++ b) = s := by
  rw [trim, List.append_assoc, trimStart_blank_append ha]
  cases s with
  | nil =>
    rw [List.nil_append, trimStart, List.dropWhile_eq_nil_iff.mpr (isBlankText_iff.mp hb),
      trimEnd_nil]
  | cons c r =>
    rw [trimStart_of_stops (by simpa using hs), trimEnd_append_blank hb, he]

theorem exists_eq_blank_append_trim (s : Text) :
    ∃ a b, isBlankText a = true ∧ isBlankText b = true ∧ s = a ++ trim s ++ b := by
  obtain ⟨b, hb, h⟩ := exists_eq_trimEnd_append (trimStart s)
  refine ⟨s.takeWhile isBlank, b, isBlankText_takeWhile s, hb, ?_⟩
  rw [trim, List.append_assoc, ← h, trimStart, List.takeWhile_append_dropWhile]

theorem trim_blank_append (ha : isBlankText a = true) (s : Text) : trim (a ++ s) = trim s := by
  rw [trim, trim, trimStart_blank_append ha]

theorem trim_eq_nil (h : isBlankText s = true) : trim s = [] := by
  rw [trim, trimStart, List.dropWhile_eq_nil_iff.mpr (isBlankText_iff.mp h), trimEnd_nil]

theorem isBlankText_append :
    isBlankText (s ++ b) = true ↔ isBlankText s = true ∧ isBlankText b = true := by
  rw [isBlankText, List.all_append, Bool.and_eq_true]
  rfl

theorem trim_append_blank (hb : isBlankText b = true) (s : Text) : trim (s ++ b) = trim s := by
  by_cases hs : isBlankText s = true
  · rw [trim_eq_nil hs, trim_eq_nil (isBlankText_append.mpr ⟨hs, hb⟩)]
  · have hne : (s.dropWhile isBlank).isEmpty = false := by
      rw [List.isEmpty_eq_false_iff, ne_eq, List.dropWhile_eq_nil_iff, ← isBlankText_iff]
      exact hs
    rw [trim, trim, trimStart, trimStart, List.dropWhile_append, if_neg (by simp [hne]),
      trimEnd_append_blank hb]

theorem trim_trimEnd (s : Text) : trim (trimEnd s) = trim s := by
  obtain ⟨b, hb, h⟩ := exists_eq_trimEnd_append s
  conv_rhs => rw [h]
  rw [trim_append_blank hb]

theorem trimEnd_trim (s : Text) : trimEnd (trim s) = trim s := trimEnd_trimEnd _

/-- A trimmed text does not start with a blank. -/
theorem stops_trim (s : Text) : Stops isBlank (trim s) := by
  obtain ⟨b, -, h⟩ := exists_eq_trimEnd_append (trimStart s)
  have hstart : Stops isBlank (trimStart s) := stops_dropWhile isBlank s
  intro c hc
  refine hstart c ?_
  rw [h]
  exact List.mem_head?_append_of_mem_head? hc

theorem trim_ne_nil (h : isBlankText s = false) : trim s ≠ [] := by
  obtain ⟨a, b, ha, hb, e⟩ := exists_eq_blank_append_trim s
  intro htrim
  rw [htrim, List.append_nil] at e
  rw [e, isBlankText_append.mpr ⟨ha, hb⟩] at h
  cases h

/-! ## Cuts -/

section Cuts

variable {stop : Text → Bool} {a r : Text}

/-- The text `a ++ r` is cut behind `a` by `stop`, which holds of `r` unless that is empty and
nowhere before. -/
structure IsCut (stop : Text → Bool) (a r : Text) : Prop where
  stops : r = [] ∨ stop r = true
  goesOn : ∀ v, v ≠ [] → v <:+ a → stop (v ++ r) = false

theorem isCut_breakAt (stop : Text → Bool) (s : Text) :
    IsCut stop (breakAt stop s).1 (breakAt stop s).2 := by
  induction s with
  | nil => exact ⟨.inl rfl, fun v hv h ↦ absurd (List.suffix_nil.mp h) hv⟩
  | cons c s ih =>
    unfold breakAt
    split
    · next h => exact ⟨.inr h, fun v hv hs ↦ absurd (List.suffix_nil.mp hs) hv⟩
    · next h =>
      refine ⟨ih.stops, fun v hv hs ↦ ?_⟩
      rcases List.suffix_cons_iff.mp hs with rfl | hs
      · simpa [breakAt_append] using h
      · exact ih.goesOn v hv hs

theorem breakAt_of_isCut (h : IsCut stop a r) : breakAt stop (a ++ r) = (a, r) := by
  induction a with
  | nil =>
    rcases h.stops with rfl | hr
    · rfl
    · cases r with
      | nil => rfl
      | cons c r => simp [breakAt, hr]
  | cons c a ih =>
    have hc : stop (c :: (a ++ r)) = false := h.goesOn (c :: a) (by simp) List.suffix_rfl
    have ha : IsCut stop a r :=
      ⟨h.stops, fun v hv hs ↦ h.goesOn v hv (hs.trans (List.suffix_cons c a))⟩
    simp [breakAt, hc, ih ha]

end Cuts

end Typings.Text
