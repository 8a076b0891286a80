import Typings.Files.Path
import Typings.Output

/-! # Requests -/

namespace Typings

/-- How the blocks of a scan leave it. -/
inductive EmitMode where
  /-- All blocks together, as one document. -/
  | concatenate
  /-- Each block to the log as soon as its row closes. -/
  | stream
deriving DecidableEq, Repr

namespace EmitMode

def name : EmitMode → Text
  | .concatenate => "concatenate".toList
  | .stream => "stream".toList

def ofName? (s : Text) : Option EmitMode :=
  if s = name .concatenate then some .concatenate
  else if s = name .stream then some .stream
  else none

def writer (m : EmitMode) : Json.Writer := .text m.name

def reader : Json.Reader EmitMode := Json.Reader.choice ofName?

end EmitMode

/-- Asks for the declarations of a listing. -/
structure EnumsRequest where
  input : Path
  /-- Where the document goes. Without it the document is handed back. -/
  output : Option Path := none
  banner : Option Text := none
  format : Format := .declarations
deriving DecidableEq, Repr

namespace DocsRequest

def defaultExtension : Text := "html".toList

/-- The page that lists enumerations. It is passed over by default, as those come from a listing. -/
def enumListing : Text := "group__enums.html".toList

end DocsRequest

/-- Asks for the declarations of the reference pages in a directory. -/
structure DocsRequest where
  dir : Path
  extension : Text := DocsRequest.defaultExtension
  /-- The name of a page that is passed over. -/
  exclude : Option Text := some DocsRequest.enumListing
  mode : EmitMode := .concatenate
  format : Format := .declarations
  output : Option Path := none
deriving DecidableEq, Repr

/-- A piece of work. -/
inductive Job where
  | enums (request : EnumsRequest)
  | docs (request : DocsRequest)
deriving DecidableEq, Repr

end Typings
