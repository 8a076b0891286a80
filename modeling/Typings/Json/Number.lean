import Typings.Json.Quoted

/-! # Numbers in JSON -/

namespace Typings.Json

/-- What the readers need to know of a number. -/
inductive Number where
  /-- A number of digits alone, below `2 ^ 64`. -/
  | natural (n : Nat)
  /-- A number with a sign, a fraction or an exponent, or a large one. -/
  | other
deriving DecidableEq, Repr

namespace Number

/-- Integers below this bound are kept exactly. -/
def bound : Nat := Nat.pow 2 64

def digit (c : Char) : Nat := c.toNat - '0'.toNat

/-- A magnitude `significand * 10 ^ exponent`. -/
structure Magnitude where
  significand : Nat
  exponent : Int

/-- The magnitude of an integer. Digits beyond the bound only scale it. -/
def Magnitude.ofDigits (digits : Text) : Magnitude :=
  let step (m : Magnitude) (c : Char) : Magnitude :=
    if m.exponent = 0 ∧ m.significand * 10 + digit c < bound then
      ⟨m.significand * 10 + digit c, 0⟩
    else ⟨m.significand, m.exponent + 1⟩
  digits.foldl step ⟨0, 0⟩

/-- Adds the digits of a fraction, as long as they fit. -/
def Magnitude.addFraction (m : Magnitude) : Text → Magnitude
  | [] => m
  | c :: r =>
    if m.significand * 10 + digit c < bound then
      addFraction ⟨m.significand * 10 + digit c, m.exponent - 1⟩ r
    else m

/-- Whether a magnitude is beyond the double-precision numbers. -/
def Magnitude.isHuge (m : Magnitude) : Bool :=
  m.significand != 0 && 0 ≤ m.exponent &&
    (308 < m.exponent ||
      (m.significand.toUInt64.toFloat * Float.ofScientific 1 false m.exponent.toNat).isInf)

/-- The largest exponent that is read as written. -/
def maxExponent : Nat := Nat.pow 2 31 - 1

/-- Scales a magnitude by a written exponent. An exponent that is too large is refused unless it
makes the number small. -/
def Magnitude.scale (m : Magnitude) (negative : Bool) (digits : Text) : Magnitude :=
  let e := digits.foldl (fun n c => n * 10 + digit c) 0
  if maxExponent < e then ⟨if negative then 0 else m.significand, maxExponent⟩
  else ⟨m.significand, if negative then m.exponent - e else m.exponent + e⟩

/-- Reads an exponent, from behind its letter. -/
def readExponent (m : Magnitude) (s : Text) : Except Refusal (Magnitude × Text) :=
  let (negative, r) := match s with
    | '+' :: r => (false, r)
    | '-' :: r => (true, r)
    | _ => (false, s)
  match r with
  | [] => .error .truncated
  | c :: _ =>
    if c.isDigit then .ok (m.scale negative (r.takeWhile Char.isDigit), r.dropWhile Char.isDigit)
    else .error .malformed

/-- Reads an exponent if there is one, and refuses numbers that are too large. -/
def readScaled (m : Magnitude) (s : Text) : Except Refusal (Number × Text) :=
  match s with
  | 'e' :: r | 'E' :: r =>
    match readExponent m r with
    | .error e => .error e
    | .ok (m, rest) => if m.isHuge then .error .malformed else .ok (.other, rest)
  | _ => if m.isHuge then .error .malformed else .ok (.other, s)

/-- Reads what follows the integer part of a number. -/
def readTail (integer : Text) (s : Text) : Except Refusal (Number × Text) :=
  let m := Magnitude.ofDigits integer
  match s with
  | '.' :: r =>
    match r.takeWhile Char.isDigit, r.dropWhile Char.isDigit with
    | [], [] => .error .truncated
    | [], _ => .error .malformed
    | fraction, rest => readScaled (m.addFraction fraction) rest
  | 'e' :: _ | 'E' :: _ => readScaled m s
  | _ => if m.exponent = 0 then .ok (.natural m.significand, s) else readScaled m s

/-- Reads a number without its sign. -/
def readUnsigned (s : Text) : Except Refusal (Number × Text) :=
  match s.takeWhile Char.isDigit with
  | [] => .error (if s.isEmpty then .truncated else .malformed)
  | '0' :: _ :: _ => .error .malformed
  | integer => readTail integer (s.dropWhile Char.isDigit)

/-- Reads a number. -/
def read (s : Text) : Except Refusal (Number × Text) :=
  match s with
  | '-' :: r => (readUnsigned r).map fun (_, rest) => (.other, rest)
  | _ => readUnsigned s

/-- Passes over at least one digit. -/
def skipDigits (s : Text) : Except Refusal Text :=
  if (s.takeWhile Char.isDigit).isEmpty then .error .malformed else .ok (s.dropWhile Char.isDigit)

/-- Passes over an exponent, from behind its letter. -/
def skipExponent (s : Text) : Except Refusal Text :=
  match s with
  | '+' :: r | '-' :: r => skipDigits r
  | _ => skipDigits s

/-- Passes over an integer part. -/
def skipInteger (s : Text) : Except Refusal Text :=
  match s.takeWhile Char.isDigit with
  | [] | '0' :: _ :: _ => .error .malformed
  | _ => .ok (s.dropWhile Char.isDigit)

/-- Passes over a fraction and an exponent, if they are there. A fraction is refused where a
number ends too early. -/
def skipTail (s : Text) : Except Refusal Text :=
  match s with
  | '.' :: r =>
    (skipDigits r).bind fun rest =>
      match rest with
      | 'e' :: t | 'E' :: t => skipExponent t
      | _ => .ok rest
  | 'e' :: r | 'E' :: r => skipExponent r
  | _ => .ok s

/-- Passes over a number without asking for its size. -/
def skip (s : Text) : Except Refusal Text :=
  match s with
  | '-' :: r => (skipInteger r).bind skipTail
  | _ => (skipInteger s).bind skipTail

theorem length_skipDigits_le {s rest : Text} (h : skipDigits s = .ok rest) :
    rest.length ≤ s.length := by
  unfold skipDigits at h
  split at h <;> cases h
  exact Text.length_dropWhile_le _ s

theorem length_skipExponent_le {s rest : Text} (h : skipExponent s = .ok rest) :
    rest.length ≤ s.length := by
  unfold skipExponent at h
  split at h
  · have := length_skipDigits_le h
    simp only [List.length_cons]
    omega
  · have := length_skipDigits_le h
    simp only [List.length_cons]
    omega
  · exact length_skipDigits_le h

theorem length_skipInteger_lt {s rest : Text} (h : skipInteger s = .ok rest) :
    rest.length < s.length := by
  unfold skipInteger at h
  split at h <;> cases h
  next he _ =>
    have h := congrArg List.length (List.takeWhile_append_dropWhile (p := Char.isDigit) (l := s))
    have := List.length_pos_iff.mpr he
    simp only [List.length_append] at h
    omega

theorem length_skipTail_le {s rest : Text} (h : skipTail s = .ok rest) :
    rest.length ≤ s.length := by
  unfold skipTail at h
  split at h
  · next r =>
    cases e : skipDigits r with
    | error x => rw [e] at h; cases h
    | ok t =>
      have hd := length_skipDigits_le e
      rw [e] at h
      simp only [Except.bind] at h
      split at h
      · have := length_skipExponent_le h
        simp only [List.length_cons] at hd ⊢
        omega
      · have := length_skipExponent_le h
        simp only [List.length_cons] at hd ⊢
        omega
      · cases h
        simp only [List.length_cons]
        omega
  · have := length_skipExponent_le h
    simp only [List.length_cons]
    omega
  · have := length_skipExponent_le h
    simp only [List.length_cons]
    omega
  · cases h
    exact Nat.le_refl _

theorem length_skip_lt {s rest : Text} (h : skip s = .ok rest) : rest.length < s.length := by
  unfold skip at h
  split at h
  · next r =>
    cases e : skipInteger r with
    | error x => rw [e] at h; cases h
    | ok t =>
      have := length_skipInteger_lt e
      rw [e] at h
      have := length_skipTail_le h
      simp only [List.length_cons]
      omega
  · cases e : skipInteger s with
    | error x => rw [e] at h; cases h
    | ok t =>
      have := length_skipInteger_lt e
      rw [e] at h
      have := length_skipTail_le h
      omega

end Number

end Typings.Json
