import Typings.Identifier

/-! # Declarations of constants -/

namespace Typings

/-- A named constant. The value is kept as it was written. -/
structure Constant where
  name : Text
  value : Text
deriving DecidableEq, Repr

namespace Constant

/-- A constant has an identifier as its name and a value that is not blank. -/
def mk? (name value : Text) : Option Constant :=
  if Identifier.check name && !Text.isBlankText value then some ⟨name, value⟩ else none

end Constant

/-- A declaration groups constants under a kind and a name, in the order they were found in. -/
structure Declaration where
  kind : Text
  name : Text
  members : List Constant
deriving DecidableEq, Repr

namespace Declaration

/-- The kind of the declarations made from tables of a listing. -/
def enumKind : Text := "enum".toList

def memberCount (d : Declaration) : Nat := d.members.length

def isEmpty (d : Declaration) : Bool := d.members.isEmpty

/-- The number of members in all declarations together. -/
def totalMembers (ds : List Declaration) : Nat :=
  ds.foldr (fun d n => d.memberCount + n) 0

end Declaration

end Typings
