import Typings.Proofs.Text.Basic
import Typings.Shift

/-!
# What spacing does to a value

Spacing either leaves a text alone or puts two spaces into a shift literal (`space_cases`). So a
spaced text is not spaced again, and it is blank, ends in a blank or holds a character just when the
text did.
-/

namespace Typings.Shift

open Text (isDecimalDigit)

variable {c : Char} {s left right : Text}

/-- A shift literal is two non-empty runs of digits with the operator between them. -/
structure IsLiteral (s left right : Text) : Prop where
  eq : s = left ++ "<<".toList ++ right
  left_ne_nil : left ≠ []
  right_ne_nil : right ≠ []
  left_digits : ∀ c ∈ left, isDecimalDigit c = true
  right_digits : ∀ c ∈ right, isDecimalDigit c = true

theorem operands?_eq_some_iff : operands? s = some (left, right) ↔ IsLiteral s left right := by
  constructor
  · intro h
    unfold operands? at h
    split at h
    · next r e =>
      dsimp only at h
      split at h
      · cases h
      · next hc =>
        cases h
        simp only [Bool.or_eq_true, List.isEmpty_iff, Bool.not_eq_true', not_or,
          Bool.not_eq_false, List.all_eq_true] at hc
        refine ⟨?_, hc.1.1, hc.1.2, List.all_eq_true.mp List.all_takeWhile, hc.2⟩
        have := List.takeWhile_append_dropWhile (p := isDecimalDigit) (l := s)
        rw [e] at this
        simpa using this.symm
    · cases h
  · rintro ⟨rfl, hl, hr, hld, hrd⟩
    have hs : Text.Stops isDecimalDigit ('<' :: '<' :: right) := by simp; decide
    have e : left ++ "<<".toList ++ right = left ++ '<' :: '<' :: right := by simp
    have hall : right.all isDecimalDigit = true := List.all_eq_true.mpr hrd
    unfold operands?
    simp only [e, Text.takeWhile_append_of_stops hld hs, Text.dropWhile_append_of_stops hld hs]
    simp [hl, hr, hall]

theorem space_of_isLiteral (h : IsLiteral s left right) :
    space s = left ++ " << ".toList ++ right := by
  rw [space, operands?_eq_some_iff.mpr h]

theorem space_of_operands?_eq_none (h : operands? s = none) : space s = s := by
  rw [space, h]

/-- All that spacing can do to a text. -/
theorem space_cases (s : Text) :
    space s = s ∨
      ∃ left right, IsLiteral s left right ∧ space s = left ++ " << ".toList ++ right := by
  cases h : operands? s with
  | none => exact .inl (space_of_operands?_eq_none h)
  | some o => exact .inr ⟨o.1, o.2, operands?_eq_some_iff.mp h,
      space_of_isLiteral (operands?_eq_some_iff.mp h)⟩

/-- A spaced literal is no literal. -/
theorem space_space (s : Text) : space (space s) = space s := by
  rcases space_cases s with h | ⟨left, right, h, hs⟩
  · rw [h, h]
  · apply space_of_operands?_eq_none
    have hstop : Text.Stops isDecimalDigit (' ' :: ("<< ".toList ++ right)) := by simp; decide
    have e : space s = left ++ ' ' :: ("<< ".toList ++ right) := by simp [hs]
    simp only [operands?, e, Text.dropWhile_append_of_stops h.left_digits hstop]
    rfl

theorem isBlankText_space (s : Text) : Text.isBlankText (space s) = Text.isBlankText s := by
  rcases space_cases s with h | ⟨left, right, h, hs⟩
  · rw [h]
  · have hlt : Text.isBlank '<' = false := by decide
    rw [hs, h.eq]
    simp [Text.isBlankText, hlt]

/-- All that spacing does is to add spaces. -/
theorem filter_space (s : Text) : (space s).filter (· != ' ') = s.filter (· != ' ') := by
  rcases space_cases s with h | ⟨left, right, h, hs⟩
  · rw [h]
  · rw [hs, h.eq]
    simp

theorem mem_space (h : c ∈ space s) : c ∈ s ∨ c = ' ' := by
  rcases space_cases s with hs | ⟨left, right, hl, hs⟩
  · exact .inl (hs ▸ h)
  · rw [hs] at h
    rw [hl.eq]
    simp only [List.mem_append] at h ⊢
    rcases h with (h | h) | h
    · exact .inl (.inl (.inl h))
    · by_cases hc : c = ' '
      · exact .inr hc
      · exact .inl (.inl (.inr (by simpa [hc] using h)))
    · exact .inl (.inr h)

/-- The first character stays the first. -/
theorem head?_space (s : Text) : (space s).head? = s.head? := by
  rcases space_cases s with h | ⟨left, right, h, hs⟩
  · rw [h]
  · rw [hs, h.eq, List.append_assoc, List.append_assoc,
      List.head?_append_of_ne_nil _ h.left_ne_nil, List.head?_append_of_ne_nil _ h.left_ne_nil]

/-- The last character stays the last. -/
theorem getLast?_space (s : Text) : (space s).getLast? = s.getLast? := by
  rcases space_cases s with h | ⟨left, right, h, hs⟩
  · rw [h]
  · rw [hs, h.eq, List.getLast?_append_of_ne_nil _ h.right_ne_nil,
      List.getLast?_append_of_ne_nil _ h.right_ne_nil]

end Typings.Shift
