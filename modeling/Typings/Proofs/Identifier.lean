import Typings.Identifier
import Typings.Proofs.Text.Ascii
import Typings.Proofs.Text.Basic

/-!
# Reading identifiers

`read?_eq_some_iff` says all about the reader: it splits a text behind the longest identifier that
the text starts with.
-/

namespace Typings.Identifier

variable {c : Char} {s name rest : Text}

theorem isTail_of_isHead (h : isHead c = true) : isTail c = true := by
  simp only [isHead, Bool.or_eq_true] at h
  rcases h with h | h <;> simp [isTail, h]

theorem toNat_lt_of_isTail (h : isTail c = true) : c.toNat < 128 := by
  simp only [isTail, Bool.or_eq_true, beq_iff_eq] at h
  rcases h with (h | h) | rfl
  · exact Text.toNat_lt_of_isLetter h
  · exact Text.toNat_lt_of_isDigit h
  · decide

/-- A fact about the characters of identifiers is settled by trying each ASCII character. -/
theorem of_isTail {P : Char → Prop} (h : ∀ n < 128, isTail (Char.ofNat n) = true → P (Char.ofNat n))
    (hc : isTail c = true) : P c :=
  Text.of_ascii (P := fun c ↦ isTail c = true → P c) h (toNat_lt_of_isTail hc) hc

theorem isBlank_of_isTail (h : isTail c = true) : Text.isBlank c = false :=
  of_isTail (P := fun c ↦ Text.isBlank c = false) (by decide) h

theorem check_iff : check s = true ↔
    ∃ c r, s = c :: r ∧ isHead c = true ∧ ∀ x ∈ r, isTail x = true := by
  cases s with
  | nil => simp [check]
  | cons c r => simp [check]

theorem isTail_of_mem (h : check s = true) : ∀ c ∈ s, isTail c = true := by
  obtain ⟨c, r, rfl, hc, hr⟩ := check_iff.mp h
  intro x hx
  rcases List.mem_cons.mp hx with rfl | hx
  · exact isTail_of_isHead hc
  · exact hr x hx

theorem notMem_of_check (h : check s = true) (hc : isTail c = false) : c ∉ s :=
  fun hm ↦ by simp [isTail_of_mem h c hm] at hc

/-- An identifier starts with a character that is not blank. -/
theorem stops_isBlank_append (h : check name = true) (rest : Text) :
    Text.Stops Text.isBlank (name ++ rest) := by
  obtain ⟨c, r, rfl, hc, -⟩ := check_iff.mp h
  simpa using isBlank_of_isTail (isTail_of_isHead hc)

theorem read?_eq_some_iff : read? s = some (name, rest) ↔
    s = name ++ rest ∧ check name = true ∧ Text.Stops isTail rest := by
  constructor
  · intro h
    cases s with
    | nil => cases h
    | cons c r =>
      rw [read?] at h
      split at h
      · next hc =>
        cases h
        refine ⟨?_, check_iff.mpr ⟨c, r.takeWhile isTail, rfl, hc, ?_⟩, Text.stops_dropWhile _ _⟩
        · rw [List.cons_append, List.takeWhile_append_dropWhile]
        · exact List.all_eq_true.mp List.all_takeWhile
      · cases h
  · rintro ⟨rfl, h, hs⟩
    obtain ⟨c, r, rfl, hc, hr⟩ := check_iff.mp h
    rw [List.cons_append, read?, if_pos hc, Text.takeWhile_append_of_stops hr hs,
      Text.dropWhile_append_of_stops hr hs]

end Typings.Identifier
