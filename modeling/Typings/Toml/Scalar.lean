import Typings.Toml.Trivia

/-! # Numbers, dates and times in TOML -/

namespace Typings.Toml.Scalar

def isHexDigit (c : Char) : Bool := c.isDigit || ('a' ≤ c && c ≤ 'f') || ('A' ≤ c && c ≤ 'F')

def isOctalDigit (c : Char) : Bool := '0' ≤ c && c ≤ '7'

def isBinaryDigit (c : Char) : Bool := c == '0' || c == '1'

/-- Whether each underscore of a text stands between two digits. What is in front of the text
counts as a digit if `behindDigit` says so. -/
def separates (digit : Char → Bool) : Bool → Text → Bool
  | _, [] => true
  | behindDigit, '_' :: r => behindDigit && r.head?.any digit && separates digit false r
  | _, c :: r => separates digit (digit c) r

/-- Digits, perhaps with single underscores between them. -/
def isDigits (digit : Char → Bool) (s : Text) : Bool :=
  !s.isEmpty && s.all (fun c => digit c || c == '_') && separates digit false s

def isSigned : Text → Bool
  | '+' :: _ | '-' :: _ => true
  | _ => false

def skipSign (s : Text) : Text := if isSigned s then s.tail else s

/-- Whether digits begin with a zero that is not all of them. -/
def hasLeadingZero (s : Text) : Bool := s.head? == some '0' && s != ['0']

/-- A number to the base 16, 8 or 2, which may lack its digits. -/
def isRadixed : Text → Bool
  | '0' :: 'x' :: r => r.isEmpty || isDigits isHexDigit r
  | '0' :: 'o' :: r => r.isEmpty || isDigits isOctalDigit r
  | '0' :: 'b' :: r => r.isEmpty || isDigits isBinaryDigit r
  | _ => false

/-- The marks that tell a fractional number from a whole one, and the space, which no number
has. -/
def isForeign (c : Char) : Bool := c == '.' || c == 'e' || c == 'E' || c == ' '

/-- A whole decimal number. As nothing asks for its value, only its outline counts: any characters
but foreign ones may follow the first underscore, while each underscore stands between two digits,
hexadecimal ones included, or behind the sign. -/
def isWhole (s : Text) : Bool :=
  let t := skipSign s
  let rest := t.dropWhile Char.isDigit
  !t.isEmpty && !hasLeadingZero t && (rest.isEmpty || rest.head? == some '_') &&
    !rest.any isForeign && separates isHexDigit (isSigned s) t

def isDigitOrUnderscore (c : Char) : Bool := c.isDigit || c == '_'

/-- An exponent, or nothing. -/
def isExponent : Text → Bool
  | [] => true
  | 'e' :: r | 'E' :: r => isDigits Char.isDigit (skipSign r)
  | _ => false

/-- What may follow the whole part of a fractional number. -/
def isFraction : Text → Bool
  | '.' :: r =>
    isDigits Char.isDigit (r.takeWhile isDigitOrUnderscore) &&
      isExponent (r.dropWhile isDigitOrUnderscore)
  | s => !s.isEmpty && isExponent s

/-- A decimal number with a fraction or an exponent. An underscore may also stand behind its
sign. -/
def isFractional (s : Text) : Bool :=
  let t := skipSign s
  let whole := t.takeWhile isDigitOrUnderscore
  !whole.isEmpty && !hasLeadingZero whole && separates Char.isDigit (isSigned s) whole &&
    isFraction (t.dropWhile isDigitOrUnderscore)

/-- The words for infinity and for what is no number, perhaps with a sign. -/
def isSpecial (s : Text) : Bool := ["inf".toList, "nan".toList].contains (skipSign s)

/-- Takes a number of `n` digits, between two bounds, off the front of a text. -/
def number? (n low high : Nat) (s : Text) : Option (Nat × Text) :=
  let digits := s.take n
  let value := digits.foldl (fun v c => v * 10 + (c.toNat - 48)) 0
  if digits.length = n ∧ digits.all Char.isDigit ∧ low ≤ value ∧ value ≤ high then
    some (value, s.drop n)
  else none

/-- Takes a character off the front of a text. -/
def expect? (c : Char) : Text → Option Text
  | [] => none
  | d :: r => if c = d then some r else none

def isLeapYear (year : Nat) : Bool := year % 4 == 0 && (year % 100 != 0 || year % 400 == 0)

def daysIn (year month : Nat) : Nat :=
  if month = 2 then if isLeapYear year then 29 else 28
  else if month = 4 ∨ month = 6 ∨ month = 9 ∨ month = 11 then 30
  else 31

/-- Takes a date off the front of a text. -/
def date? (s : Text) : Option Text := do
  let (year, s) ← number? 4 0 9999 s
  let s ← expect? '-' s
  let (month, s) ← number? 2 1 12 s
  let s ← expect? '-' s
  let (_, s) ← number? 2 1 (daysIn year month) s
  return s

/-- Takes a fraction of a second, if there is one, off the front of a text. -/
def subsecond? : Text → Option Text
  | '.' :: r => if (r.takeWhile Char.isDigit).isEmpty then none else some (r.dropWhile Char.isDigit)
  | s => some s

/-- Takes seconds, if there are some, off the front of a text. -/
def seconds? : Text → Option Text
  | ':' :: r => do
    let (_, s) ← number? 2 0 60 r
    subsecond? s
  | s => some s

/-- Takes a time of day off the front of a text. -/
def time? (s : Text) : Option Text := do
  let (_, s) ← number? 2 0 23 s
  let s ← expect? ':' s
  let (_, s) ← number? 2 0 59 s
  seconds? s

/-- A difference from universal time, or nothing. -/
def isOffset : Text → Bool
  | [] | ['Z'] | ['z'] => true
  | '+' :: r | '-' :: r =>
    match number? 2 0 23 r with
    | some (_, ':' :: s) => (number? 2 0 59 s).any (·.2.isEmpty)
    | _ => false
  | _ => false

/-- A date, a time of day, or both. -/
def isMoment (s : Text) : Bool :=
  match date? s with
  | some [] => true
  | some (c :: r) => (c == 'T' || c == 't' || c == ' ') && (time? r).any isOffset
  | none => (time? s).any List.isEmpty

/-- The line ends, and the marks that documents are built of. -/
def isMark (c : Char) : Bool := "\n\r,=#[]\x7b\x7d".toList.contains c

/-- Whether a value without quotes ends in front of a text. Blanks and quotes may stand inside one,
but what follows blanks is not part of it if it is quoted. -/
def endsAt (s : Text) : Bool :=
  match skipSpaces s with
  | [] => true
  | c :: _ => isMark c || ((c == '"' || c == '\'') && s.head?.any isSpace)

/-- Splits a value without quotes off the front of a text. -/
def split (s : Text) : Text × Text := s.breakAt endsAt

theorem length_split_le (s : Text) : (split s).1.length + (split s).2.length = s.length := by
  rw [← List.length_append]
  exact congrArg List.length (Text.breakAt_append endsAt s)

/-- Whether a text is a number, a date or a time. -/
def check (s : Text) : Bool :=
  isRadixed s || isWhole s || isFractional s || isSpecial s || isMoment s

end Typings.Toml.Scalar
