import Typings.Text.Basic

/-!
# Classes of ASCII characters

Letters and digits are ASCII characters, and there are few enough of those for a fact about all of
them to be settled by trying each.  Letter case is a matter of letters alone (`eq_of_toLower_eq`).
-/

namespace Typings.Text

/-- What holds of the first 128 code points holds of every ASCII character. -/
theorem of_ascii {P : Char → Prop} (h : ∀ n < 128, P (Char.ofNat n)) {c : Char}
    (hc : c.toNat < 128) : P c := by
  simpa using h c.toNat hc

theorem toNat_lt_of_isLetter {c : Char} (h : isLetter c = true) : c.toNat < 128 := by
  rcases Bool.or_eq_true_iff.mp h with h | h
  · have hz : c.val ≤ 'Z'.val := (of_decide_eq_true h : 'A'.val ≤ c.val ∧ c.val ≤ 'Z'.val).2
    exact Nat.lt_of_le_of_lt (UInt32.le_iff_toNat_le.mp hz) (by decide)
  · have hz : c.val ≤ 'z'.val := of_decide_eq_true (Bool.and_eq_true_iff.mp h).2
    exact Nat.lt_of_le_of_lt (UInt32.le_iff_toNat_le.mp hz) (by decide)

theorem toNat_lt_of_isDigit {c : Char} (h : c.isDigit = true) : c.toNat < 128 := by
  have h9 : c.val ≤ '9'.val := of_decide_eq_true (Bool.and_eq_true_iff.mp h).2
  exact Nat.lt_of_le_of_lt (UInt32.le_iff_toNat_le.mp h9) (by decide)

theorem toLower_of_not_isLetter {c : Char} (h : isLetter c = false) : c.toLower = c := by
  have hupper : c.isUpper = false := (Bool.or_eq_false_iff.mp h).1
  exact dif_neg (of_decide_eq_false hupper)

theorem isLetter_toLower (c : Char) : isLetter c.toLower = isLetter c := by
  cases h : isLetter c with
  | false => rw [toLower_of_not_isLetter h, h]
  | true =>
    exact of_ascii (P := fun c ↦ isLetter c = true → isLetter c.toLower = true) (by decide)
      (toNat_lt_of_isLetter h) h

/-- Only a letter is written in two ways. -/
theorem eq_of_toLower_eq {c d : Char} (h : c.toLower = d) (hd : isLetter d = false) : c = d := by
  rw [← h, isLetter_toLower] at hd
  rw [← h, toLower_of_not_isLetter hd]

end Typings.Text
