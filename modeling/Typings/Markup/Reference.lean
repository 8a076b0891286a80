import Typings.Text.Basic

/-! # Character references -/

namespace Typings.Markup.Reference

/-- The character with this code point. Surrogates and numbers beyond the last code point denote
no character. -/
def scalar? (n : Nat) : Option Char :=
  if n < 0xD800 ∨ (0xDFFF < n ∧ n < 0x110000) then some (Char.ofNat n) else none

def isHexDigit (c : Char) : Bool :=
  c.isDigit || ('a' ≤ c && c ≤ 'f') || ('A' ≤ c && c ≤ 'F')

/-- The value of a hexadecimal digit. -/
def digitValue (c : Char) : Nat :=
  if c.isDigit then c.toNat - '0'.toNat else c.toLower.toNat - 'a'.toNat + 10

/-- The product of two words, unless it does not fit into 32 bits. -/
def mul? (m n : UInt32) : Option UInt32 :=
  if m.toNat * n.toNat < UInt32.size then some (m * n) else none

/-- The sum of two words, unless it does not fit into 32 bits. -/
def add? (m n : UInt32) : Option UInt32 :=
  if m.toNat + n.toNat < UInt32.size then some (m + n) else none

/-- Puts a digit behind those of a word. -/
def push? (base : UInt32) (n : UInt32) (c : Char) : Option UInt32 :=
  (mul? n base).bind fun m => add? m (UInt32.ofNat (digitValue c))

/-- Reads digits into 32 bits. There is no result once they do not fit. -/
def word? (base : UInt32) (digits : Text) : Option UInt32 := digits.foldlM (push? base) 0

/-- The character whose code point digits denote in a base. -/
def character? (base : UInt32) (digits : Text) : Option Char :=
  (word? base digits).bind fun n => scalar? n.toNat

/-- The characters that have a name. Names are case-sensitive. -/
def named? (name : Text) : Option Char :=
  if name = "amp".toList then some '&'
  else if name = "lt".toList then some '<'
  else if name = "gt".toList then some '>'
  else if name = "quot".toList then some '"'
  else if name = "apos".toList then some '\''
  else if name = "nbsp".toList then some '\u00A0'
  else none

/-- Splits a text after a run of characters of one kind and the semicolon behind it. -/
def body? (p : Char → Bool) (s : Text) : Option (Text × Text) :=
  match s.dropWhile p with
  | ';' :: rest => if (s.takeWhile p).isEmpty then none else some (s.takeWhile p, rest)
  | _ => none

/-- Reads what follows an ampersand up to a semicolon. -/
def read? (s : Text) : Option (Char × Text) :=
  match s with
  | '#' :: 'x' :: r | '#' :: 'X' :: r =>
    (body? isHexDigit r).bind fun (digits, rest) => (character? 16 digits).map (·, rest)
  | '#' :: r =>
    (body? Char.isDigit r).bind fun (digits, rest) => (character? 10 digits).map (·, rest)
  | c :: _ =>
    if Text.isLetter c then
      (body? Char.isAlphanum s).bind fun (name, rest) => (named? name).map (·, rest)
    else none
  | [] => none

theorem length_body?_lt {p : Char → Bool} {s run rest : Text} (h : body? p s = some (run, rest)) :
    rest.length < s.length := by
  unfold body? at h
  split at h
  · next t e =>
    split at h
    · cases h
    · cases h
      have := Text.length_dropWhile_le p s
      rw [e] at this
      simp only [List.length_cons] at this
      omega
  · cases h

theorem length_read?_lt {s rest : Text} {c : Char} (h : read? s = some (c, rest)) :
    rest.length < s.length := by
  unfold read? at h
  split at h
  case h_5 => cases h
  case h_4 =>
    split at h
    · simp only [Option.bind_eq_some_iff, Option.map_eq_some_iff] at h
      obtain ⟨⟨run, t⟩, hb, _, _, he⟩ := h
      cases he
      exact length_body?_lt hb
    · cases h
  all_goals
    simp only [Option.bind_eq_some_iff, Option.map_eq_some_iff] at h
    obtain ⟨⟨run, t⟩, hb, _, _, he⟩ := h
    cases he
    have := length_body?_lt hb
    simp only [List.length_cons]
    omega

/-- Replaces every reference by the character it denotes, in one pass from left to right. A
reference that denotes no character stays as written. -/
def decode : Text → Text
  | [] => []
  | '&' :: r =>
    match _h : read? r with
    | some (c, rest) => c :: decode rest
    | none => '&' :: decode r
  | c :: r => c :: decode r
termination_by s => s.length
decreasing_by
  · have := length_read?_lt ‹_›
    simp only [List.length_cons]
    omega
  all_goals simp

end Typings.Markup.Reference
