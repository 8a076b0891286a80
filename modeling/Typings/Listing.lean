import Typings.Listing.Line
import Typings.Log
import Typings.Text.Line

/-! # Listings of tables -/

namespace Typings

/-- A line of a table that was not understood. -/
structure SkippedLine where
  /-- Counted from one. -/
  number : Nat
  text : Text
deriving DecidableEq, Repr

/-- What a listing amounts to. -/
structure Listing where
  records : List Declaration
  skipped : List SkippedLine
deriving DecidableEq, Repr

namespace Listing

structure Options where
  /-- Names the kind of source in the log. -/
  sourceKind : Text := "lua_enums".toList
  spaceShifts : Bool := true
deriving DecidableEq, Repr

/-- What comes to light while a listing is read. -/
inductive Finding where
  /-- A table, found once its last line has been read. -/
  | table (record : Declaration)
  /-- A line of the table of this name that was not understood. -/
  | skipped (line : SkippedLine) (table : Text)
deriving DecidableEq, Repr

namespace Finding

def record? : Finding → Option Declaration
  | .table d => some d
  | .skipped .. => none

def skipped? : Finding → Option SkippedLine
  | .table _ => none
  | .skipped line _ => some line

def event (o : Options) : Finding → Log.Event
  | .table d =>
    ⟨.debug, "parsed enum table".toList, [("name", .text d.name), ("members", .count d.memberCount)]⟩
  | .skipped line owner =>
    ⟨.debug, "skipping unrecognized line in ".toList ++ owner,
      [("source_kind", .text o.sourceKind), ("line", .count line.number)]⟩

end Finding

/-- Reads the lines from number `n` on, with the table that is open, if any. A table stays open
until the next one opens, whatever its lines say. -/
def findingsFrom (spaceShifts : Bool) (n : Nat) : Option Declaration → List Text → List Finding
  | current, [] => (current.map Finding.table).toList
  | none, line :: rest =>
    match Line.read spaceShifts line with
    | .opener name => findingsFrom spaceShifts (n + 1) (some ⟨Declaration.enumKind, name, []⟩) rest
    | _ => findingsFrom spaceShifts (n + 1) none rest
  | some d, line :: rest =>
    match Line.read spaceShifts line with
    | .opener name =>
      .table d :: findingsFrom spaceShifts (n + 1) (some ⟨Declaration.enumKind, name, []⟩) rest
    | .entry c =>
      findingsFrom spaceShifts (n + 1) (some { d with members := d.members ++ [c] }) rest
    | .structural => findingsFrom spaceShifts (n + 1) (some d) rest
    | .unknown => .skipped ⟨n, line⟩ d.name :: findingsFrom spaceShifts (n + 1) (some d) rest

/-- Everything found in a source text, in order. -/
def findings (o : Options) (source : Text) : List Finding :=
  findingsFrom o.spaceShifts 1 none (Text.lines source)

def ofFindings (fs : List Finding) : Listing :=
  ⟨fs.filterMap Finding.record?, fs.filterMap Finding.skipped?⟩

/-- Reads a listing. Every text is one, and lines before the first table count for nothing. -/
def parse (o : Options) (source : Text) : Listing := ofFindings (findings o source)

/-- What the log says about reading a listing. -/
def log (o : Options) (source : Text) : List Log.Event := (findings o source).map (Finding.event o)

def memberCount (l : Listing) : Nat := Declaration.totalMembers l.records

end Listing

end Typings
