import Typings.Declaration
import Typings.Shift

/-! # Lines of a listing -/

namespace Typings.Listing

/-- What a line of a listing says. -/
inductive Line where
  /-- The line opens the table of this name. -/
  | opener (name : Text)
  /-- The line gives a constant. -/
  | entry (constant : Constant)
  /-- The line is blank or closes a table. -/
  | structural
  | unknown
deriving DecidableEq, Repr

namespace Line

/-- The part of a line before its comment, which starts at the first `--`. -/
def withoutComment (line : Text) : Text := (Text.breakOn "--".toList line).1

/-- A value without trailing blanks and without the comma after it, if there is one. -/
def trimValue (s : Text) : Text :=
  match (Text.trimEnd s).reverse with
  | ',' :: r => Text.trimEnd r.reverse
  | r => r.reverse

/-- The name of the table that a line opens: an identifier, an equals sign and an opening brace
with one space between each. The line must hold nothing else, not even a comment. -/
def opened? (line : Text) : Option Text :=
  match Identifier.read? (Text.trim line) with
  | some (name, rest) => if rest = " = \x7b".toList then some name else none
  | none => none

/-- The constant that a line without comment gives: an identifier, an equals sign between two
single spaces, and a value. -/
def entry? (spaceShifts : Bool) (line : Text) : Option Constant :=
  match Identifier.read? (Text.trimStart line) with
  | some (name, ' ' :: '=' :: ' ' :: value) =>
    Constant.mk? name (Shift.spaceIf spaceShifts (trimValue value))
  | _ => none

/-- A line without comment that stands in a table by right and gives no constant. -/
def isStructural (line : Text) : Bool :=
  let s := Text.trim line
  s.isEmpty || s == "\x7d".toList || s == "\x7d,".toList || s == "\x7d;".toList

/-- Reads one line. -/
def read (spaceShifts : Bool) (line : Text) : Line :=
  match opened? line with
  | some name => .opener name
  | none =>
    match entry? spaceShifts (withoutComment line) with
    | some c => .entry c
    | none => if isStructural (withoutComment line) then .structural else .unknown

end Line

end Typings.Listing
