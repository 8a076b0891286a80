import Typings.Text.Basic

/-! # Log events -/

namespace Typings.Log

/-- How much an event matters, from least to most. -/
inductive Level where
  | debug
  | info
  | warn
  | error
deriving DecidableEq, Repr

namespace Level

def rank : Level → Nat
  | .debug => 0
  | .info => 1
  | .warn => 2
  | .error => 3

end Level

/-- The value of a field of an event. -/
inductive Value where
  | count (n : Nat)
  | text (s : Text)
deriving DecidableEq, Repr

/-- An event is a message with named values. -/
structure Event where
  level : Level
  message : Text
  fields : List (String × Value)
deriving DecidableEq, Repr

/-- The events that matter at least as much as a level. -/
def atLeast (level : Level) (events : List Event) : List Event :=
  events.filter fun e => level.rank ≤ e.level.rank

end Typings.Log
