import Typings.Files.Path
import Typings.Json.Reader
import Typings.Json.Writer

/-! # Reports -/

namespace Typings

open Json

/-- What became of a request for a listing. -/
structure EnumsReport where
  recordCount : Nat
  memberCount : Nat
  skippedCount : Nat
  output : Option Path
  /-- The document, if it was not written to a file. -/
  rendered : Option Text
deriving DecidableEq, Repr

namespace EnumsReport

def writer (r : EnumsReport) : Writer :=
  .object <|
    [("record_count".toList, .count r.recordCount), ("member_count".toList, .count r.memberCount),
      ("skipped_count".toList, .count r.skippedCount)] ++
      Writer.optional "output".toList (r.output.map .text) ++
      Writer.optional "rendered".toList (r.rendered.map .text)

/-- The fields of a report read so far. -/
structure Partial where
  recordCount : Option Nat := none
  memberCount : Option Nat := none
  skippedCount : Option Nat := none
  output : Option (Option Path) := none
  rendered : Option (Option Text) := none

def shape : Reader.Shape Partial EnumsReport where
  fields := [
    .at "record_count" Partial.recordCount (fun p n => { p with recordCount := some n })
      Reader.count none,
    .at "member_count" Partial.memberCount (fun p n => { p with memberCount := some n })
      Reader.count none,
    .at "skipped_count" Partial.skippedCount (fun p n => { p with skippedCount := some n })
      Reader.count none,
    .at "output" Partial.output (fun p t => { p with output := some t })
      (Reader.optional Reader.text) none,
    .at "rendered" Partial.rendered (fun p t => { p with rendered := some t })
      (Reader.optional Reader.text) none]
  start := {}
  finish p := do
    let recordCount ← p.recordCount
    let memberCount ← p.memberCount
    let skippedCount ← p.skippedCount
    some ⟨recordCount, memberCount, skippedCount, p.output.getD none, p.rendered.getD none⟩

def reader : Reader EnumsReport := Reader.shape shape

end EnumsReport

/-- What became of a request for reference pages. -/
structure DocsReport where
  pagesScanned : Nat
  rowsSeen : Nat
  recordCount : Nat
  memberCount : Nat
  output : Option Path
  /-- The document, if it was neither written to a file nor streamed. -/
  rendered : Option Text
deriving DecidableEq, Repr

namespace DocsReport

def writer (r : DocsReport) : Writer :=
  .object <|
    [("pages_scanned".toList, .count r.pagesScanned), ("rows_seen".toList, .count r.rowsSeen),
      ("record_count".toList, .count r.recordCount),
      ("member_count".toList, .count r.memberCount)] ++
      Writer.optional "output".toList (r.output.map .text) ++
      Writer.optional "rendered".toList (r.rendered.map .text)

/-- The fields of a report read so far. -/
structure Partial where
  pagesScanned : Option Nat := none
  rowsSeen : Option Nat := none
  recordCount : Option Nat := none
  memberCount : Option Nat := none
  output : Option (Option Path) := none
  rendered : Option (Option Text) := none

def shape : Reader.Shape Partial DocsReport where
  fields := [
    .at "pages_scanned" Partial.pagesScanned (fun p n => { p with pagesScanned := some n })
      Reader.count none,
    .at "rows_seen" Partial.rowsSeen (fun p n => { p with rowsSeen := some n }) Reader.count none,
    .at "record_count" Partial.recordCount (fun p n => { p with recordCount := some n })
      Reader.count none,
    .at "member_count" Partial.memberCount (fun p n => { p with memberCount := some n })
      Reader.count none,
    .at "output" Partial.output (fun p t => { p with output := some t })
      (Reader.optional Reader.text) none,
    .at "rendered" Partial.rendered (fun p t => { p with rendered := some t })
      (Reader.optional Reader.text) none]
  start := {}
  finish p := do
    let pagesScanned ← p.pagesScanned
    let rowsSeen ← p.rowsSeen
    let recordCount ← p.recordCount
    let memberCount ← p.memberCount
    some ⟨pagesScanned, rowsSeen, recordCount, memberCount, p.output.getD none,
      p.rendered.getD none⟩

def reader : Reader DocsReport := Reader.shape shape

end DocsReport

end Typings
