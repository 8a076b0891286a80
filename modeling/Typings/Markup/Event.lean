import Typings.Text.Basic

/-! # Markup events -/

namespace Typings.Markup

structure Attribute where
  name : Text
  value : Text
deriving DecidableEq, Repr

/-- What a document says, piece by piece. -/
inductive Event where
  | startTag (name : Text) (attributes : List Attribute)
  | endTag (name : Text)
  | text (content : Text)
deriving DecidableEq, Repr

namespace Event

/-- The value of the first attribute of this name on a start tag. -/
def attribute? (name : Text) : Event → Option Text
  | .startTag _ as => (as.find? (·.name == name)).map Attribute.value
  | _ => none

def isStartOf (tag : Text) : Event → Bool
  | .startTag name _ => name == tag
  | _ => false

def isEndOf (tag : Text) : Event → Bool
  | .endTag name => name == tag
  | _ => false

end Event

end Typings.Markup
