import Typings.Json.Reader
import Typings.Json.Writer
import Typings.Listing

/-! # Declarations in JSON -/

namespace Typings

open Json

namespace Constant

def writer (c : Constant) : Writer :=
  .object [("name".toList, .text c.name), ("raw_value".toList, .text c.value)]

/-- The fields of a constant read so far. -/
structure Partial where
  name : Option Text := none
  value : Option Text := none

def shape : Reader.Shape Partial Constant where
  fields := [
    .at "name" Partial.name (fun p t => { p with name := some t }) Reader.text none,
    .at "raw_value" Partial.value (fun p t => { p with value := some t }) Reader.text none]
  start := {}
  finish p := do
    let name ← p.name
    let value ← p.value
    some ⟨name, value⟩

/-- Reads a constant as it is written, which need not be one that `mk?` accepts. -/
def reader : Reader Constant := Reader.shape shape

end Constant

namespace Declaration

/-- An empty list of members is left out. -/
def writer (d : Declaration) : Writer :=
  .object <|
    [("kind".toList, .text d.kind), ("name".toList, .text d.name)] ++
      Writer.optional "members".toList
        (if d.members.isEmpty then none else some (.list (d.members.map Constant.writer)))

/-- The fields of a declaration read so far. -/
structure Partial where
  kind : Option Text := none
  name : Option Text := none
  members : Option (List Constant) := none

def shape : Reader.Shape Partial Declaration where
  fields := [
    .at "kind" Partial.kind (fun p t => { p with kind := some t }) Reader.text none,
    .at "name" Partial.name (fun p t => { p with name := some t }) Reader.text none,
    .at "members" Partial.members (fun p cs => { p with members := some cs })
      (Reader.list Constant.reader) (some [])]
  start := {}
  finish p := do
    let kind ← p.kind
    let name ← p.name
    some ⟨kind, name, p.members.getD []⟩

def reader : Reader Declaration := Reader.shape shape

end Declaration

namespace SkippedLine

def writer (l : SkippedLine) : Writer :=
  .object [("line".toList, .count l.number), ("text".toList, .text l.text)]

/-- The fields of a skipped line read so far. -/
structure Partial where
  number : Option Nat := none
  text : Option Text := none

def shape : Reader.Shape Partial SkippedLine where
  fields := [
    .at "line" Partial.number (fun p n => { p with number := some n }) Reader.count none,
    .at "text" Partial.text (fun p t => { p with text := some t }) Reader.text none]
  start := {}
  finish p := do
    let number ← p.number
    let text ← p.text
    some ⟨number, text⟩

def reader : Reader SkippedLine := Reader.shape shape

end SkippedLine

end Typings
