import Typings.Job.Docs
import Typings.Job.Enums

/-! # Running jobs -/

namespace Typings.Job

variable {m : Type → Type} [Monad m] [Host m]

/-- The log entry for an enums job whose document is in a file. -/
def wroteEnums (path : Path) (r : EnumsReport) : Log.Event :=
  ⟨.info, "wrote enum declarations".toList,
    [("output", .text path), ("records", .count r.recordCount)]⟩

/-- The log entry for a docs job whose document is in a file. -/
def wroteDocs (path : Path) (r : DocsReport) : Log.Event :=
  ⟨.info, "wrote documentation declarations".toList,
    [("output", .text path), ("pages", .count r.pagesScanned), ("records", .count r.recordCount)]⟩

/-- Runs a job and prints the document that it hands back, if any. -/
def run : Job → ExceptT Failure m Unit
  | .enums request => do
    let report ← request.run (m := m)
    if let some path := report.output then
      Host.log (wroteEnums path report) (m := m)
    if let some document := report.rendered then
      Host.print document (m := m)
  | .docs request => do
    let report ← request.run (m := m)
    if let some path := report.output then
      Host.log (wroteDocs path report) (m := m)
    if let some document := report.rendered then
      Host.print document (m := m)

/-- Runs jobs in order up to the first that fails, and gives the number of jobs that succeeded. -/
def runAll : List Job → m (Nat × Option Failure)
  | [] => return (0, none)
  | job :: jobs => do
    match ← (job.run).run with
    | .ok _ =>
      let (n, failure) ← runAll jobs
      return (n + 1, failure)
    | .error e => return (0, some e)

end Typings.Job
