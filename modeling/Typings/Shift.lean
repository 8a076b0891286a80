import Typings.Text.Digit

/-! # Shift literals -/

namespace Typings.Shift

/-- Splits a shift literal, digits `<<` digits and nothing else, into its two operands. -/
def operands? (s : Text) : Option (Text × Text) :=
  let left := s.takeWhile Text.isDecimalDigit
  match s.dropWhile Text.isDecimalDigit with
  | '<' :: '<' :: right =>
    if left.isEmpty || right.isEmpty || !right.all Text.isDecimalDigit then none
    else some (left, right)
  | _ => none

/-- Sets the operator of a shift literal between spaces and leaves any other text as it is. -/
def space (s : Text) : Text :=
  match operands? s with
  | some (left, right) => left ++ " << ".toList ++ right
  | none => s

/-- Spaces shift literals on request. -/
def spaceIf (on : Bool) (s : Text) : Text := if on then space s else s

end Typings.Shift
