import Typings.Json.Quoted

/-!
# Quoted text read back

What is written for a character between quotes is read as that character (`readBody_escape`), so a
written text is read back and what follows it is left (`readBody_append`).
-/

namespace Typings.Json.Quoted

variable {c d : Char} {n : Nat} {r rest : Text}

/-! ## Escapes -/

theorem hexValue?_hexDigit (h : n < 16) : hexValue? (hexDigit n) = some n := by
  have hall : ∀ n < 16, hexValue? (hexDigit n) = some n := by decide
  exact hall n h

theorem readFourDigits_hexDigit (h : n < 256) (rest : Text) :
    readFourDigits ('0' :: '0' :: hexDigit (n / 16) :: hexDigit (n % 16) :: rest) =
      .ok (n, rest) := by
  have hzero : hexValue? '0' = some 0 := by decide
  have hhigh : hexValue? (hexDigit (n / 16)) = some (n / 16) := hexValue?_hexDigit (by omega)
  have hlow : hexValue? (hexDigit (n % 16)) = some (n % 16) := hexValue?_hexDigit (by omega)
  have hn : ((0 * 16 + 0) * 16 + n / 16) * 16 + n % 16 = n := by omega
  simp only [readFourDigits, hzero, hhigh, hlow, hn]

/-- A control character is written by its code point. -/
theorem readEscape_control (h : c.toNat < 0x20) (rest : Text) :
    readEscape ('u' :: '0' :: '0' :: hexDigit (c.toNat / 16) :: hexDigit (c.toNat % 16) :: rest) =
      .ok (c, rest) := by
  have hlow : (0xDC00 ≤ c.toNat && c.toNat ≤ 0xDFFF) = false := by simp; omega
  have hhigh : (0xD800 ≤ c.toNat && c.toNat ≤ 0xDBFF) = false := by simp; omega
  simp only [readEscape, readFourDigits_hexDigit (n := c.toNat) (by omega), hlow, hhigh,
    Char.ofNat_toNat, Bool.false_eq_true, if_false]

theorem readEscape_short (hc : c ≠ 'u') (h : shortEscape? c = some d) (rest : Text) :
    readEscape (c :: rest) = .ok (d, rest) := by
  rw [readEscape.eq_3 _ _ hc, h]

/-! ## Bodies -/

theorem readBody_backslash (h : readEscape r = .ok (c, rest)) :
    readBody ('\\' :: r) = (readBody rest).map fun (s, t) => (c :: s, t) := by
  rw [readBody.eq_3]
  split
  · next e =>
    rw [h] at e
    cases e
  · next e =>
    rw [h] at e
    cases e
    rfl

theorem readBody_short (hc : c ≠ 'u') (h : shortEscape? c = some d) (rest : Text) :
    readBody ('\\' :: c :: rest) = (readBody rest).map fun (s, t) => (d :: s, t) :=
  readBody_backslash (readEscape_short hc h rest)

theorem readBody_plain (hquote : c ≠ '"') (hslash : c ≠ '\\') (h : ¬ c.toNat < 0x20) (r : Text) :
    readBody (c :: r) = (readBody r).map fun (s, t) => (c :: s, t) := by
  rw [readBody.eq_4 _ _ hquote hslash, if_neg h]

/-- What is written for a character is read as that character. -/
theorem readBody_escape (c : Char) (rest : Text) :
    readBody (escape c ++ rest) = (readBody rest).map fun (s, t) => (c :: s, t) := by
  unfold escape
  split
  · next h => subst h; exact readBody_short (by decide) (by decide) rest
  split
  · next h => subst h; exact readBody_short (by decide) (by decide) rest
  split
  · next h => subst h; exact readBody_short (by decide) (by decide) rest
  split
  · next h => subst h; exact readBody_short (by decide) (by decide) rest
  split
  · next h => subst h; exact readBody_short (by decide) (by decide) rest
  split
  · next h => subst h; exact readBody_short (by decide) (by decide) rest
  split
  · next h => subst h; exact readBody_short (by decide) (by decide) rest
  split
  · next h => exact readBody_backslash (readEscape_control h rest)
  · next hquote hslash _ _ _ _ _ h => exact readBody_plain hquote hslash h rest

theorem write_append (s rest : Text) :
    write s ++ rest = '"' :: (s.flatMap escape ++ '"' :: rest) := by
  simp [write]

/-- A written text is read back from behind its opening quote, and what follows it is left. -/
theorem readBody_append (s rest : Text) :
    readBody (s.flatMap escape ++ '"' :: rest) = .ok (s, rest) := by
  induction s with
  | nil => rw [List.flatMap_nil, List.nil_append, readBody.eq_2]
  | cons c s ih =>
    rw [List.flatMap_cons, List.append_assoc, readBody_escape, ih]
    rfl

end Typings.Json.Quoted
