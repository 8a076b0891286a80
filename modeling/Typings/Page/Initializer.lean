import Typings.Declaration
import Typings.Shift
import Typings.Text.Line
import Typings.Text.Word

/-! # Initializers in table cells

The right cell of a member row names a declaration and may list constants for it. -/

namespace Typings.Page.Initializer

/-- The nesting depth behind a character. A closing bracket that closes nothing leaves it at
zero. -/
def depthAfter (depth : Nat) (c : Char) : Nat :=
  if c == '(' || c == '[' then depth + 1
  else if c == ')' || c == ']' then depth - 1
  else depth

/-- Splits a line at its commas of depth zero, given the depth at its start. -/
def segmentsFrom (depth : Nat) : Text → List Text
  | [] => [[]]
  | c :: r =>
    if c == ',' && depth == 0 then [] :: segmentsFrom 0 r
    else Text.consFirst c (segmentsFrom (depthAfter depth c) r)

/-- Splits a line at the commas that stand in no parentheses or brackets. -/
def segments (line : Text) : List Text := segmentsFrom 0 line

/-- The constant that a segment gives: an identifier, an equals sign and a value, which ends at the
last word character. -/
def member? (spaceShifts : Bool) (segment : Text) : Option Constant :=
  match Identifier.read? segment with
  | none => none
  | some (name, rest) =>
    match Text.trimStart rest with
    | '=' :: value =>
      Constant.mk? name
        (Shift.spaceIf spaceShifts (Text.throughLastWord (Text.trimStart value)))
    | _ => none

/-- The part of a line that may hold constants: what follows its first opening brace, or all of a
line without one. -/
def listPart (line : Text) : Text :=
  match line.dropWhile (· != '{') with
  | [] => line
  | _ :: rest => rest

/-- The constants of one line. -/
def lineMembers (spaceShifts : Bool) (line : Text) : List Constant :=
  (segments (listPart (Text.trim line))).filterMap fun segment =>
    member? spaceShifts (Text.trim segment)

/-- The constants of a cell, line by line. -/
def members (spaceShifts : Bool) (cell : Text) : List Constant :=
  (Text.lines cell).flatMap (lineMembers spaceShifts)

/-- The declaration made from the texts of the two cells of a row: its kind is the first word on the
left, its name the first word on the right. -/
def declaration (spaceShifts : Bool) (left right : Text) : Declaration :=
  ⟨Text.firstWord left, Text.firstWord right, members spaceShifts right⟩

end Typings.Page.Initializer
