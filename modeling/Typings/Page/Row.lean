import Typings.Markup.Event
import Typings.Page.Initializer

/-! # Member rows -/

namespace Typings.Page

/-- How member rows and their cells are told from others. -/
structure Options where
  /-- Names the kind of source in the log. -/
  sourceKind : Text := "doxygen_html".toList
  /-- The class of a member row starts like this. -/
  rowClass : Text := "memitem:".toList
  leftClass : Text := "memItemLeft".toList
  rightClass : Text := "memItemRight".toList
  spaceShifts : Bool := true
deriving DecidableEq, Repr

inductive Side where
  | left
  | right
deriving DecidableEq, Repr

namespace Row

/-- Where a scan stands: outside member rows, or in one and perhaps in one of its cells. -/
inductive Place where
  | outside
  | inside (cell : Option Side)
deriving DecidableEq, Repr

/-- A scan over the events of a page. -/
structure Scan where
  place : Place := .outside
  /-- The text of the left cells of the open row so far. -/
  left : Text := []
  right : Text := []
  /-- The number of member rows opened so far. -/
  opened : Nat := 0
deriving DecidableEq, Repr

/-- Whether an event opens a member row. -/
def opens (o : Options) (e : Markup.Event) : Bool :=
  e.isStartOf "tr".toList &&
    match e.attribute? "class".toList with
    | some c => o.rowClass.isPrefixOf c
    | none => false

/-- The side of the cell that an event opens. A class that names both sides is the left one. -/
def side? (o : Options) (e : Markup.Event) : Option Side :=
  if e.isStartOf "td".toList then
    match e.attribute? "class".toList with
    | some c => if c = o.leftClass then some .left else if c = o.rightClass then some .right else none
    | none => none
  else none

namespace Scan

def inRow (s : Scan) : Bool :=
  match s.place with
  | .outside => false
  | .inside _ => true

/-- Starts a row and forgets one that is open. -/
def openRow (s : Scan) : Scan := ⟨.inside none, [], [], s.opened + 1⟩

/-- Adds text to the cells of one side. -/
def append (side : Side) (t : Text) (s : Scan) : Scan :=
  match side with
  | .left => { s with left := s.left ++ t }
  | .right => { s with right := s.right ++ t }

/-- Takes one event, and gives a declaration if the event closes a member row. -/
def step (o : Options) (s : Scan) (e : Markup.Event) : Scan × Option Declaration :=
  if e.isStartOf "tr".toList then (if opens o e then s.openRow else s, none)
  else
    match s.place with
    | .outside => (s, none)
    | .inside cell =>
      if e.isEndOf "tr".toList then
        (⟨.outside, [], [], s.opened⟩, some (Initializer.declaration o.spaceShifts s.left s.right))
      else
        match cell with
        | none => ({ s with place := .inside (side? o e) }, none)
        | some side =>
          match e with
          | .text t => (s.append side t, none)
          | _ => if e.isEndOf "td".toList then ({ s with place := .inside none }, none) else (s, none)

/-- The declarations of all rows that close during a sequence of events, and the scan after it. -/
def run (o : Options) (s : Scan) : List Markup.Event → List Declaration × Scan
  | [] => ([], s)
  | e :: es =>
    let (s', d) := s.step o e
    let (ds, last) := s'.run o es
    (d.toList ++ ds, last)

/-- Hands each declaration to a consumer as soon as its row closes, and gives what has become of the
consumer, and the scan after all events. -/
def feed {σ : Type} (o : Options) (take : σ → Declaration → σ) (consumer : σ) (s : Scan) :
    List Markup.Event → σ × Scan
  | [] => (consumer, s)
  | e :: es =>
    let (s', d) := s.step o e
    s'.feed o take (d.elim consumer (take consumer)) es

end Scan

end Row

end Typings.Page
