import Typings.Text.Basic

/-! # Identifiers -/

namespace Typings.Identifier

/-- The characters that may begin an identifier. -/
def isHead (c : Char) : Bool := Text.isLetter c || c == '_'

/-- The characters that may follow in an identifier. -/
def isTail (c : Char) : Bool := Text.isLetter c || c.isDigit || c == '_'

/-- An identifier is an ASCII letter or underscore, then ASCII letters, digits and underscores. -/
def check : Text → Bool
  | [] => false
  | c :: r => isHead c && r.all isTail

/-- Reads the longest identifier at the start of a text. -/
def read? : Text → Option (Text × Text)
  | [] => none
  | c :: r => if isHead c then some (c :: r.takeWhile isTail, r.dropWhile isTail) else none

end Typings.Identifier
