import Typings.Job.Enums
import Typings.Proofs.Job.Session

/-!
# Reading a listing

A request for a listing amounts to what its source reads as and a document made of that
(`perform_run`).
-/

namespace Typings.EnumsRequest

variable {r : EnumsRequest} {s : Session}

/-- The listing that a request finds in a file tree, or why it fails, and what the log says. -/
def find (r : EnumsRequest) (t : FileTree) : Except Job.Failure Listing × List Log.Event :=
  match t.readText r.input with
  | .error e => (.error (.load r.input e), [])
  | .ok source =>
    (.ok (Listing.parse {} source), Listing.log {} source ++ [r.event (Listing.parse {} source)])

/-- The document made of a listing. -/
def documentOf (r : EnumsRequest) (l : Listing) : Text := r.format.render r.banner l.records

/-- The report on a listing. -/
def reportOf (r : EnumsRequest) (l : Listing) : EnumsReport where
  recordCount := l.records.length
  memberCount := l.memberCount
  skippedCount := l.skipped.length
  output := r.output
  rendered := if r.output.isSome then none else some (r.documentOf l)

theorem perform_run (r : EnumsRequest) (s : Session) :
    s.perform r.run = s.respond (r.find s.files) r.output r.documentOf r.reportOf := by
  rw [run, find, Session.perform_bind, Session.perform_load]
  cases s.files.readText r.input with
  | error e => simp [Except.mapError, Session.respond]
  | ok source =>
    dsimp only [Except.mapError]
    rw [Session.perform_liftM_bind, Session.run_logAll, Session.perform_liftM_bind,
      Session.run_log, Session.logs_logs]
    exact Session.perform_deliver _ _ _ _

/-- A request prints nothing by itself. -/
theorem printed_run (r : EnumsRequest) (s : Session) :
    (s.perform r.run).2.printed = s.printed := by
  rw [perform_run, Session.printed_respond]

end Typings.EnumsRequest
