import Typings.Proofs.Identifier
import Typings.Text.Word

/-!
# Blanks and word characters

No blank is a word character, so that a text up to its last word character has lost the blanks
behind it (`throughLastWord_append`).  What is left, if anything is, ends in a word and starts where
the text did.
-/

namespace Typings.Text

variable {c : Char} {s t : Text}

/-- The code points of the blank characters. -/
def blankPoints : List Nat :=
  [0x20, 0x09, 0x0A, 0x0B, 0x0C, 0x0D, 0x85, 0xA0, 0x1680, 0x2000, 0x2001, 0x2002, 0x2003, 0x2004,
    0x2005, 0x2006, 0x2007, 0x2008, 0x2009, 0x200A, 0x2028, 0x2029, 0x202F, 0x205F, 0x3000]

theorem toNat_mem_blankPoints (h : isBlank c = true) : c.toNat ∈ blankPoints := by
  simp only [isBlank, Bool.or_eq_true, Bool.and_eq_true, beq_iff_eq, decide_eq_true_eq] at h
  simp only [blankPoints, List.mem_cons]
  omega

/-- What holds of the characters of these points holds of every blank. -/
theorem of_isBlank {P : Char → Prop} (hall : ∀ n ∈ blankPoints, P (Char.ofNat n))
    (h : isBlank c = true) : P c := by
  have hc := hall c.toNat (toNat_mem_blankPoints h)
  rwa [Char.ofNat_toNat] at hc

theorem isWordChar_of_isBlank (h : isBlank c = true) : isWordChar c = false :=
  of_isBlank (P := fun c ↦ isWordChar c = false) (by decide +kernel) h

theorem isBlank_of_isWordChar (h : isWordChar c = true) : isBlank c = false :=
  isBlank_eq_false isWordChar_of_isBlank h

theorem isWordChar_of_isTail (h : Identifier.isTail c = true) : isWordChar c = true :=
  Identifier.of_isTail (P := fun c ↦ isWordChar c = true) (by decide) h

/-- A text that ends in a word is left as it is, and what has no word in it is cut off. -/
theorem throughLastWord_append (hs : ∃ x ∈ s.getLast?, isWordChar x = true)
    (ht : ∀ x ∈ t, isWordChar x = false) : throughLastWord (s ++ t) = s := by
  obtain ⟨x, hx, hword⟩ := hs
  obtain ⟨init, rfl⟩ := List.getLast?_eq_some_iff.mp (Option.mem_def.mp hx)
  have ht' : ∀ x ∈ t.reverse, (!isWordChar x) = true := by simpa using ht
  have hstop : Stops (!isWordChar ·) (init ++ [x]).reverse := by simp [hword]
  rw [throughLastWord, List.reverse_append, dropWhile_append_of_stops ht' hstop,
    List.reverse_reverse]

theorem throughLastWord_eq_rdropWhile (s : Text) :
    throughLastWord s = s.rdropWhile (!isWordChar ·) := rfl

theorem exists_eq_throughLastWord_append (s : Text) :
    ∃ r, (∀ x ∈ r, isWordChar x = false) ∧ s = throughLastWord s ++ r := by
  refine ⟨s.rtakeWhile (!isWordChar ·), fun x hx ↦ ?_, List.rdropWhile_append_rtakeWhile.symm⟩
  simpa using List.mem_rtakeWhile_imp hx

theorem exists_getLast?_throughLastWord (h : throughLastWord s ≠ []) :
    ∃ x ∈ (throughLastWord s).getLast?, isWordChar x = true := by
  rw [throughLastWord_eq_rdropWhile] at h ⊢
  refine ⟨_, List.getLast?_eq_some_getLast h, ?_⟩
  simpa using List.rdropWhile_last_not (!isWordChar ·) s h

/-- What is cut off the end of a text does not change its start. -/
theorem head?_throughLastWord (h : throughLastWord s ≠ []) :
    (throughLastWord s).head? = s.head? := by
  obtain ⟨rest, hs⟩ : throughLastWord s <+: s := List.rdropWhile_prefix (!isWordChar ·) s
  conv_rhs => rw [← hs]
  exact (List.head?_append_of_ne_nil _ h).symm

end Typings.Text
