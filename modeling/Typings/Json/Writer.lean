import Typings.Json.Quoted

/-! # Writing JSON -/

namespace Typings.Json

/-- How JSON is laid out: on one line, or with each item on a line of its own. -/
inductive Layout where
  | compact
  | indented
deriving DecidableEq, Repr

/-- A value writes itself in a layout at a nesting depth. -/
abbrev Writer := Layout → Nat → Text

namespace Writer

/-- What stands in front of an item at this depth. -/
def lineStart (l : Layout) (depth : Nat) : Text :=
  match l with
  | .compact => []
  | .indented => '\n' :: List.replicate (2 * depth) ' '

/-- What stands between a key and its value. -/
def colon : Layout → Text
  | .compact => [':']
  | .indented => [':', ' ']

/-- Writes items between brackets, with a comma between two. -/
def group (opening closing : Char) (items : List Writer) : Writer := fun l depth =>
  if items.isEmpty then [opening, closing]
  else
    opening :: List.intercalate [','] (items.map fun w => lineStart l (depth + 1) ++ w l (depth + 1)) ++
      lineStart l depth ++ [closing]

def text (s : Text) : Writer := fun _ _ => Quoted.write s

def count (n : Nat) : Writer := fun _ _ => Nat.toDigits 10 n

def list (items : List Writer) : Writer := group '[' ']' items

/-- A key with its value. -/
def field (key : Text) (value : Writer) : Writer := fun l depth =>
  Quoted.write key ++ colon l ++ value l depth

/-- Writes fields, given with their keys. -/
def object (fields : List (Text × Writer)) : Writer :=
  group '{' '}' (fields.map fun (key, value) => field key value)

/-- A field that is left out if it has no value. -/
def optional (key : Text) (value : Option Writer) : List (Text × Writer) :=
  (value.map fun w => (key, w)).toList

end Writer

/-- The text of a value. -/
def write (l : Layout) (value : Writer) : Text := value l 0

end Typings.Json
