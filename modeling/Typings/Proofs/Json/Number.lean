import Typings.Json.Number
import Typings.Proofs.Text.Basic

/-!
# Counts read back

The digits of a count below `2 ^ 64` are read as that count (`read_toDigits_append`), provided that
what follows does not go on as a number.
-/

namespace Typings.Json.Number

variable {n : Nat} {s rest : Text}

/-- The characters that a number of digits may go on with. -/
def continues (c : Char) : Bool := c.isDigit || c == '.' || c == 'e' || c == 'E'

/-! ## Digits -/

theorem isDigit_of_mem_digits : ∀ c ∈ Nat.toDigits 10 n, c.isDigit = true :=
  fun _ ↦ Nat.isDigit_of_mem_toDigits (by decide) (by decide)

/-- Only zero is written with a zero in front. -/
theorem head?_toDigits (h : 0 < n) : (Nat.toDigits 10 n).head? ≠ some '0' := by
  induction n using Nat.base_induction 10 (by decide) with
  | single m hm =>
    have hall : ∀ m < 10, 0 < m → m.digitChar ≠ '0' := by decide
    rw [Nat.toDigits_of_lt_base hm, List.head?_cons]
    exact fun e ↦ hall m hm h (Option.some.inj e)
  | digit m k hk hm ih =>
    rw [← Nat.toDigits_append_toDigits (by decide) hm hk,
      List.head?_append_of_ne_nil _ Nat.toDigits_ne_nil]
    exact ih hm

theorem toDigits_ne_zero_cons (c : Char) (t : Text) : Nat.toDigits 10 n ≠ '0' :: c :: t := by
  rcases Nat.eq_zero_or_pos n with rfl | hn
  · rw [Nat.toDigits_zero]
    exact fun h ↦ nomatch h
  · intro h
    exact head?_toDigits hn (by rw [h, List.head?_cons])

/-! ## Magnitudes -/

theorem le_ofDigitChars (s : Text) (m : Nat) : m ≤ Nat.ofDigitChars 10 s m := by
  rw [Nat.ofDigitChars_eq_ofDigitChars_zero]
  have := Nat.le_mul_of_pos_left m (Nat.pow_pos (n := s.length) (by decide : 0 < 10))
  omega

/-- As long as the number stays below the bound every digit counts. -/
theorem ofDigits_of_lt (h : Nat.ofDigitChars 10 s 0 < bound) :
    Magnitude.ofDigits s = ⟨Nat.ofDigitChars 10 s 0, 0⟩ := by
  rw [Magnitude.ofDigits]
  generalize 0 = m at h ⊢
  induction s generalizing m with
  | nil => rw [List.foldl_nil, Nat.ofDigitChars_nil]
  | cons c s ih =>
    have hdigit : m * 10 + digit c = 10 * m + (c.toNat - '0'.toNat) := by
      rw [digit, Nat.mul_comm]
    rw [Nat.ofDigitChars_cons, ← hdigit] at h ⊢
    have hfits : m * 10 + digit c < bound := Nat.lt_of_le_of_lt (le_ofDigitChars s _) h
    rw [List.foldl_cons, if_pos ⟨rfl, hfits⟩]
    exact ih _ h

theorem ofDigits_toDigits (h : n < bound) : Magnitude.ofDigits (Nat.toDigits 10 n) = ⟨n, 0⟩ := by
  have hn : Nat.ofDigitChars 10 (Nat.toDigits 10 n) 0 = n := Nat.ofDigitChars_ten_toDigits
  rw [ofDigits_of_lt (by rwa [hn]), hn]

/-! ## Reading -/

theorem stops_isDigit (h : Text.Stops continues rest) : Text.Stops Char.isDigit rest := by
  intro c hc
  have := h c hc
  simp only [continues, Bool.or_eq_false_iff] at this
  exact this.1.1.1

theorem readTail_toDigits (h : n < bound) (hs : Text.Stops continues rest) :
    readTail (Nat.toDigits 10 n) rest = .ok (.natural n, rest) := by
  unfold readTail
  rw [ofDigits_toDigits h]
  dsimp only
  split
  · exact absurd (Text.stops_cons.mp hs) (by decide)
  · exact absurd (Text.stops_cons.mp hs) (by decide)
  · exact absurd (Text.stops_cons.mp hs) (by decide)
  · rfl

/-- The digits of a count are read as that count. -/
theorem read_toDigits_append (h : n < bound) (hs : Text.Stops continues rest) :
    read (Nat.toDigits 10 n ++ rest) = .ok (.natural n, rest) := by
  have hdigits : ∀ c ∈ Nat.toDigits 10 n, c.isDigit = true := isDigit_of_mem_digits
  have hunsigned : readUnsigned (Nat.toDigits 10 n ++ rest) = .ok (.natural n, rest) := by
    unfold readUnsigned
    rw [Text.takeWhile_append_of_stops hdigits (stops_isDigit hs),
      Text.dropWhile_append_of_stops hdigits (stops_isDigit hs)]
    split
    · next e => exact absurd e Nat.toDigits_ne_nil
    · next e => exact absurd e (toDigits_ne_zero_cons _ _)
    · exact readTail_toDigits h hs
  unfold read
  split
  · next r e =>
    cases hd : Nat.toDigits 10 n with
    | nil => exact absurd hd Nat.toDigits_ne_nil
    | cons c t =>
      rw [hd] at e
      have hc : c.isDigit = true := hdigits c (hd ▸ List.mem_cons_self)
      rw [(List.cons.inj e).1] at hc
      cases hc
  · exact hunsigned

end Typings.Json.Number
