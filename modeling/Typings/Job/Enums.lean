import Typings.Job.Report
import Typings.Job.Request
import Typings.Job.Source

/-! # Declarations from a listing -/

namespace Typings.EnumsRequest

variable {m : Type → Type} [Monad m] [Host m]

/-- The log entry for a listing that was read. -/
def event (r : EnumsRequest) (l : Listing) : Log.Event :=
  ⟨.info, "generated enum declarations".toList,
    [("input", .text r.input), ("records", .count l.records.length),
      ("members", .count l.memberCount), ("skipped", .count l.skipped.length)]⟩

/-- Reads the listing and writes its declarations to the output, or hands them back. -/
def run (r : EnumsRequest) : ExceptT Job.Failure m EnumsReport := do
  let source ← Job.load r.input
  let listing := Listing.parse {} source
  let document := r.format.render r.banner listing.records
  Host.logAll (Listing.log {} source) (m := m)
  Host.log (r.event listing) (m := m)
  if let some path := r.output then
    Job.save path document
  return {
    recordCount := listing.records.length
    memberCount := listing.memberCount
    skippedCount := listing.skipped.length
    output := r.output
    rendered := if r.output.isSome then none else some document }

end Typings.EnumsRequest
