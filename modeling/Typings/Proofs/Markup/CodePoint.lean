import Mathlib.Data.Nat.Digits.Defs
import Typings.Markup.Reference
import Typings.Proofs.Text.Bytes

/-!
# Code points in digits

Digits are read into a word of 32 bits.  The number grows with every digit, so that the reading ends
with the number that they denote just if it fits, whatever zeros stand in front (`map_toNat_word?`).
No number wraps, and a character comes of the digits just if they denote its code point
(`character?_eq`).
-/

namespace Typings.Markup.Reference

variable {base : UInt32} {c : Char} {digits : Text}

/-! ## Descriptions -/

/-- The number that digits denote in a base. -/
def number (base : Nat) (digits : Text) : Nat :=
  digits.foldl (fun n c => n * base + digitValue c) 0

/-- The number, if it fits into 32 bits. -/
def fits? (n : Nat) : Option Nat := if n < UInt32.size then some n else none

/-- The first digit counts most. -/
theorem number_eq_ofDigits (base : Nat) (digits : Text) :
    number base digits = Nat.ofDigits base (digits.reverse.map digitValue) := by
  rw [number, Nat.ofDigits_eq_foldr, List.foldr_map, List.foldr_reverse]
  congr 1
  funext n c
  rw [Nat.mul_comm, Nat.add_comm]
  rfl

/-! ## Words -/

theorem fits?_of_lt {n : Nat} (h : n < UInt32.size) : fits? n = some n := if_pos h

theorem fits?_of_le {n : Nat} (h : UInt32.size ≤ n) : fits? n = none := if_neg (Nat.not_lt.mpr h)

theorem map_toNat_mul? (m n : UInt32) : (mul? m n).map UInt32.toNat = fits? (m.toNat * n.toNat) := by
  unfold mul? fits?
  split
  · next h => rw [Option.map_some, UInt32.toNat_mul, Nat.mod_eq_of_lt h]
  · rfl

theorem map_toNat_add? (m n : UInt32) : (add? m n).map UInt32.toNat = fits? (m.toNat + n.toNat) := by
  unfold add? fits?
  split
  · next h => rw [Option.map_some, UInt32.toNat_add, Nat.mod_eq_of_lt h]
  · rfl

theorem digitValue_lt (c : Char) : digitValue c < UInt32.size := by
  have hlower := Text.toNat_lt c.toLower
  have hc := Text.toNat_lt c
  have hsize : UInt32.size = 0x100000000 := rfl
  simp only [digitValue, Char.toNat]
  split <;> omega

/-- A digit is put behind those of a word if the number that comes of it fits. -/
theorem map_toNat_push? (base n : UInt32) (c : Char) :
    (push? base n c).map UInt32.toNat = fits? (n.toNat * base.toNat + digitValue c) := by
  have hmul := map_toNat_mul? n base
  by_cases h : n.toNat * base.toNat < UInt32.size
  · rw [fits?_of_lt h] at hmul
    obtain ⟨m, hm, hvalue⟩ := Option.map_eq_some_iff.mp hmul
    rw [push?, hm, Option.bind_some, map_toNat_add?, hvalue,
      UInt32.toNat_ofNat_of_lt' (digitValue_lt c)]
  · rw [fits?_of_le (Nat.not_lt.mp h)] at hmul
    rw [push?, Option.map_eq_none_iff.mp hmul, Option.bind_none, Option.map_none, fits?_of_le]
    omega

/-- The number only grows while digits are read. -/
theorem le_foldl_digits {base : Nat} (hbase : 0 < base) (n : Nat) (digits : Text) :
    n ≤ digits.foldl (fun n c => n * base + digitValue c) n := by
  induction digits generalizing n with
  | nil => exact Nat.le_refl n
  | cons c digits ih =>
    calc n ≤ n * base := Nat.le_mul_of_pos_right n hbase
      _ ≤ n * base + digitValue c := Nat.le_add_right _ _
      _ ≤ _ := ih _

theorem map_toNat_foldlM (hbase : 0 < base.toNat) (n : UInt32) (digits : Text) :
    (digits.foldlM (push? base) n).map UInt32.toNat =
      fits? (digits.foldl (fun n c => n * base.toNat + digitValue c) n.toNat) := by
  induction digits generalizing n with
  | nil => exact (fits?_of_lt n.toNat_lt).symm
  | cons c digits ih =>
    rw [List.foldlM_cons, List.foldl_cons]
    have hpush := map_toNat_push? base n c
    by_cases h : n.toNat * base.toNat + digitValue c < UInt32.size
    · rw [fits?_of_lt h] at hpush
      obtain ⟨m, hm, hvalue⟩ := Option.map_eq_some_iff.mp hpush
      rw [hm, ← hvalue]
      exact ih m
    · -- what does not fit here does not fit with more digits behind it
      have hle := Nat.not_lt.mp h
      rw [fits?_of_le hle] at hpush
      rw [Option.map_eq_none_iff.mp hpush, fits?_of_le (hle.trans (le_foldl_digits hbase _ digits))]
      rfl

theorem map_toNat_word? (hbase : 0 < base.toNat) (digits : Text) :
    (word? base digits).map UInt32.toNat = fits? (number base.toNat digits) :=
  map_toNat_foldlM hbase 0 digits

/-! ## Characters -/

theorem exists_scalar?_eq {n : Nat} (h : n < 0xD800 ∨ (0xDFFF < n ∧ n < 0x110000)) :
    ∃ c : Char, c.toNat = n ∧ scalar? n = some c := by
  have hvalid : n.isValidChar := h
  refine ⟨Char.ofNat n, ?_, if_pos h⟩
  rw [Char.ofNat, dif_pos hvalid]
  rfl

theorem scalar?_of_le {n : Nat} (h : 0x110000 ≤ n) : scalar? n = none := if_neg (by omega)

/-- The bound on words hides no character, as there is none beyond it. -/
theorem character?_eq (hbase : 0 < base.toNat) (digits : Text) :
    character? base digits = scalar? (number base.toNat digits) := by
  have hword := map_toNat_word? hbase digits
  have hbind : character? base digits = ((word? base digits).map UInt32.toNat).bind scalar? := by
    rw [Option.bind_map]
    rfl
  rw [hbind, hword]
  by_cases h : number base.toNat digits < UInt32.size
  · rw [fits?_of_lt h, Option.bind_some]
  · have hle := Nat.not_lt.mp h
    rw [fits?_of_le hle, Option.bind_none, scalar?_of_le (Nat.le_trans (by decide) hle)]

theorem character?_decimal (digits : Text) :
    character? 10 digits = scalar? (number 10 digits) :=
  character?_eq (by decide) digits

theorem character?_hexadecimal (digits : Text) :
    character? 16 digits = scalar? (number 16 digits) :=
  character?_eq (by decide) digits

end Typings.Markup.Reference
