import Typings.Text.Basic

/-! # Quoted text in JSON -/

namespace Typings.Json

/-- Why a JSON text was refused. -/
inductive Refusal where
  /-- The text is not JSON. -/
  | malformed
  /-- The text is JSON as far as it was read, but not of the type asked for. -/
  | mismatch
  /-- The text ends too early. -/
  | truncated
deriving DecidableEq, Repr

namespace Quoted

/-- The digits of hexadecimal notation below sixteen, in lower case. -/
def hexDigit (n : Nat) : Char := if n < 10 then Char.ofNat (n + 48) else Char.ofNat (n + 87)

/-- How a character is written between quotes. -/
def escape (c : Char) : Text :=
  if c = '"' then ['\\', '"']
  else if c = '\\' then ['\\', '\\']
  else if c = '\n' then ['\\', 'n']
  else if c = '\r' then ['\\', 'r']
  else if c = '\t' then ['\\', 't']
  else if c = '\x08' then ['\\', 'b']
  else if c = '\x0C' then ['\\', 'f']
  else if c.toNat < 0x20 then
    ['\\', 'u', '0', '0', hexDigit (c.toNat / 16), hexDigit (c.toNat % 16)]
  else [c]

/-- Writes a text between quotes. -/
def write (s : Text) : Text := '"' :: s.flatMap escape ++ ['"']

/-- The value of a hexadecimal digit of either case. -/
def hexValue? (c : Char) : Option Nat :=
  if '0' ≤ c && c ≤ '9' then some (c.toNat - 48)
  else if 'a' ≤ c && c ≤ 'f' then some (c.toNat - 87)
  else if 'A' ≤ c && c ≤ 'F' then some (c.toNat - 55)
  else none

/-- The refusal of a text that does not start with four hexadecimal digits. It counts as too short
if it has fewer than four bytes. -/
def notFourDigits (s : Text) : Refusal :=
  if Text.byteLength (s.take 4) < 4 then .truncated else .malformed

/-- Reads four hexadecimal digits. -/
def readFourDigits (s : Text) : Except Refusal (Nat × Text) :=
  match s with
  | a :: b :: c :: d :: rest =>
    match hexValue? a, hexValue? b, hexValue? c, hexValue? d with
    | some a, some b, some c, some d => .ok (((a * 16 + b) * 16 + c) * 16 + d, rest)
    | _, _, _, _ => .error (notFourDigits s)
  | _ => .error (notFourDigits s)

/-- The character that a pair of surrogates stands for. -/
def ofSurrogates (high low : Nat) : Char :=
  Char.ofNat ((high - 0xD800) * 0x400 + (low - 0xDC00) + 0x10000)

/-- Reads the second half of a pair of surrogates. -/
def readLowSurrogate (high : Nat) : Text → Except Refusal (Char × Text)
  | [] => .error .truncated
  | '\\' :: [] => .error .truncated
  | '\\' :: 'u' :: r =>
    match readFourDigits r with
    | .error e => .error e
    | .ok (low, rest) =>
      if 0xDC00 ≤ low && low ≤ 0xDFFF then .ok (ofSurrogates high low, rest) else .error .malformed
  | _ => .error .malformed

/-- What a character stands for behind a backslash. -/
def shortEscape? (c : Char) : Option Char :=
  if c = '"' ∨ c = '\\' ∨ c = '/' then some c
  else if c = 'b' then some '\x08'
  else if c = 'f' then some '\x0C'
  else if c = 'n' then some '\n'
  else if c = 'r' then some '\r'
  else if c = 't' then some '\t'
  else none

/-- Reads an escape, from behind its backslash. -/
def readEscape : Text → Except Refusal (Char × Text)
  | [] => .error .truncated
  | 'u' :: r =>
    match readFourDigits r with
    | .error e => .error e
    | .ok (n, rest) =>
      if 0xDC00 ≤ n && n ≤ 0xDFFF then .error .malformed
      else if 0xD800 ≤ n && n ≤ 0xDBFF then readLowSurrogate n rest
      else .ok (Char.ofNat n, rest)
  | c :: r =>
    match shortEscape? c with
    | some d => .ok (d, r)
    | none => .error .malformed

theorem length_readFourDigits_lt {s rest : Text} {n : Nat}
    (h : readFourDigits s = .ok (n, rest)) : rest.length < s.length := by
  unfold readFourDigits at h
  split at h
  · split at h
    · cases h
      simp only [List.length_cons]
      omega
    · cases h
  · cases h

theorem length_readLowSurrogate_lt {s rest : Text} {high : Nat} {c : Char}
    (h : readLowSurrogate high s = .ok (c, rest)) : rest.length < s.length := by
  unfold readLowSurrogate at h
  split at h <;> try cases h
  split at h
  · cases h
  · next e =>
    have := length_readFourDigits_lt e
    split at h
    · simp only [Except.ok.injEq, Prod.mk.injEq] at h
      simp only [List.length_cons, ← h.2]
      omega
    · cases h

theorem length_readEscape_lt {s rest : Text} {c : Char} (h : readEscape s = .ok (c, rest)) :
    rest.length < s.length := by
  unfold readEscape at h
  split at h
  · cases h
  · split at h
    · cases h
    · next e =>
      have hd := length_readFourDigits_lt e
      split at h
      · cases h
      · split at h
        · have := length_readLowSurrogate_lt h
          simp only [List.length_cons]
          omega
        · simp only [Except.ok.injEq, Prod.mk.injEq] at h
          simp only [List.length_cons, ← h.2]
          omega
  · split at h <;> cases h
    simp

/-- Reads a quoted text, from behind its opening quote to behind its closing one. -/
def readBody : Text → Except Refusal (Text × Text)
  | [] => .error .truncated
  | '"' :: r => .ok ([], r)
  | '\\' :: r =>
    match _h : readEscape r with
    | .error e => .error e
    | .ok (c, rest) => (readBody rest).map fun (s, t) => (c :: s, t)
  | c :: r =>
    if c.toNat < 0x20 then .error .malformed else (readBody r).map fun (s, t) => (c :: s, t)
termination_by s => s.length
decreasing_by
  · have := length_readEscape_lt _h
    simp only [List.length_cons]
    omega
  · simp

/-- Passes over an escape, from behind its backslash. What the escape stands for does not matter. -/
def skipEscape : Text → Except Refusal Text
  | [] => .error .truncated
  | 'u' :: r => (readFourDigits r).map Prod.snd
  | c :: r => if (shortEscape? c).isSome then .ok r else .error .malformed

theorem length_skipEscape_lt {s rest : Text} (h : skipEscape s = .ok rest) :
    rest.length < s.length := by
  unfold skipEscape at h
  split at h
  · cases h
  · next r =>
    cases e : readFourDigits r with
    | error x => rw [e] at h; cases h
    | ok x =>
      rw [e] at h
      cases h
      have := length_readFourDigits_lt e
      simp only [List.length_cons]
      omega
  · split at h
    · cases h
      simp
    · cases h

/-- Passes over a quoted text, from behind its opening quote to behind its closing one. -/
def skipBody : Text → Except Refusal Text
  | [] => .error .truncated
  | '"' :: r => .ok r
  | '\\' :: r =>
    match _h : skipEscape r with
    | .error e => .error e
    | .ok rest => skipBody rest
  | c :: r => if c.toNat < 0x20 then .error .malformed else skipBody r
termination_by s => s.length
decreasing_by
  · have := length_skipEscape_lt _h
    simp only [List.length_cons]
    omega
  · simp

theorem length_skipBody_lt {s rest : Text} (h : skipBody s = .ok rest) :
    rest.length < s.length := by
  fun_induction skipBody s with
  | case1 => cases h
  | case2 => cases h; simp
  | case3 => cases h
  | case4 r t e ih =>
    have := length_skipEscape_lt e
    have := ih h
    simp only [List.length_cons]
    omega
  | case5 => cases h
  | case6 c r _ _ _ ih =>
    have := ih h
    simp only [List.length_cons]
    omega

end Quoted

end Typings.Json
