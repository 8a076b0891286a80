import Typings.Block
import Typings.Declaration.Json

/-! # Output formats -/

namespace Typings

/-- The formats that a list of declarations can be written in. -/
inductive Format where
  | declarations
  | json
deriving DecidableEq, Repr

namespace Format

def name : Format → Text
  | .declarations => "declarations".toList
  | .json => "json".toList

def ofName? (s : Text) : Option Format :=
  if s = name .declarations then some .declarations
  else if s = name .json then some .json
  else none

/-- Writes declarations in a format. JSON has no place for a banner. -/
def render (f : Format) (banner : Option Text) (ds : List Declaration) : Text :=
  match f with
  | .declarations => Document.renderWith banner ds
  | .json => Json.write .indented (.list (ds.map Declaration.writer)) ++ ['\n']

end Format

end Typings
