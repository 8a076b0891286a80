import Typings.Proofs.Job.Run

/-!
# What a job does

A job makes a document of the files (`Job.document`).  It saves it to its output, or prints it, or
leaves it at what was streamed to the log.  Whether it succeeds, and what it does to the files, is
up to the files alone (`Job.makes_of_ok`, `Job.isDone_of_makes`).
-/

namespace Typings

namespace Job

variable {job : Job} {s s' : Session} {t t' : FileTree} {text : Text} {failure : Failure}

/-! ## What is asked for -/

/-- Where the document goes. -/
def output : Job → Option Path
  | .enums r => r.output
  | .docs r => r.output

def format : Job → Format
  | .enums r => r.format
  | .docs r => r.format

/-- Whether the blocks go to the log. -/
def streams : Job → Bool
  | .enums _ => false
  | .docs r => r.mode == .stream

/-! ## Documents -/

/-- The document that a job makes of a file tree, or why it makes none. -/
def document (job : Job) (t : FileTree) : Except Failure Text :=
  match job with
  | .enums r => (r.find t).1.map r.documentOf
  | .docs r => (r.find t).1.map r.documentOf

/-- What the log says about the search for the sources. -/
def searchLog (job : Job) (t : FileTree) : List Log.Event :=
  match job with
  | .enums r => (r.find t).2
  | .docs r => (r.find t).2

/-- What a job prints of its document: all or nothing. -/
def shown (job : Job) (text : Text) : Text :=
  if job.output.isSome ∨ job.streams = true then [] else text

/-- The job makes a document of the files `t`, and leaves the files `t'`. -/
structure Makes (job : Job) (t : FileTree) (text : Text) (t' : FileTree) : Prop where
  document : job.document t = .ok text
  unsaved : job.output = none → t' = t
  saved : ∀ p, job.output = some p → t.save p text = (.ok (), t')

/-- The session `s'` is what the session `s` becomes when the job makes a document and leaves the
files `t'`. -/
structure IsDone (job : Job) (s : Session) (text : Text) (t' : FileTree) (s' : Session) :
    Prop where
  files : s'.files = t'
  printed : s'.printed = s.printed ++ job.shown text
  log : job.output = none → s'.log = s.log ++ job.searchLog s.files

/-! ## Requests -/

theorem perform_tell_none (s : Session) (event : Path → Log.Event) (text : Option Text) :
    s.perform (tell none event text) =
      (.ok (), { s with printed := s.printed ++ text.getD [] }) := by
  cases text with
  | none => exact Prod.ext rfl (by simp [tell])
  | some text => rfl

theorem perform_tell_some (s : Session) (p : Path) (event : Path → Log.Event) :
    s.perform (tell (some p) event none) = (.ok (), s.logs [event p]) := rfl

theorem exists_of_map_eq_ok {α β : Type} {x : Except Failure α} {f : α → β} {b : β}
    (h : x.map f = .ok b) : ∃ a, x = .ok a ∧ f a = b := by
  cases x with
  | error e => cases h
  | ok a => exact ⟨a, rfl, Except.ok.inj h⟩

section Respond

variable {α β : Type} {act : ExceptT Failure (StateM Session) β} {a : α} {b : β}
variable {found : Except Failure α × List Log.Event} {output : Option Path}
variable {documentOf : α → Text} {report : α → β}

/-- There is a report only if something was found, and its document could be saved. -/
theorem saved_of_respond (h : (s.respond found output documentOf report).1 = .ok b) :
    ∃ a, found.1 = .ok a ∧
      ∀ p, output = some p → (s.files.save p (documentOf a)).1 = .ok () := by
  obtain ⟨a, ha, -, -⟩ := Session.respond_eq_ok h
  refine ⟨a, ha, ?_⟩
  rintro p rfl
  obtain ⟨_, events⟩ := found
  obtain rfl := ha
  rw [Session.respond, Session.deliver] at h
  cases hsave : (s.files.save p (documentOf a)).1 with
  | ok => rfl
  | error e => simp [hsave, Except.mapError, Except.map] at h

/-- A request that leads to a report, and the job going on from that. -/
theorem perform_bind_tell_of_respond (outputOf : β → Option Path) (event : Path → β → Log.Event)
    (rendered : β → Option Text)
    (hact : s.perform act = s.respond found output documentOf report)
    (houtput : outputOf (report a) = output) (hsome : output.isSome → rendered (report a) = none)
    (ha : found.1 = .ok a) (hunsaved : output = none → t' = s.files)
    (hsaved : ∀ p, output = some p → s.files.save p (documentOf a) = (.ok (), t')) :
    ∃ s', s.perform (act >>= fun b ↦ tell (outputOf b) (event · b) (rendered b)) = (.ok (), s') ∧
      s'.files = t' ∧ s'.printed = s.printed ++ (rendered (report a)).getD [] ∧
        (output = none → s'.log = s.log ++ found.2) := by
  obtain ⟨_, events⟩ := found
  obtain rfl := ha
  rw [Session.perform_bind, hact]
  cases output with
  | none =>
    obtain rfl := hunsaved rfl
    simp only [Session.respond, Session.deliver, Except.map, houtput]
    exact ⟨_, perform_tell_none _ _ _, rfl, rfl, fun _ ↦ rfl⟩
  | some p =>
    simp only [Session.respond, Session.deliver, Except.map, houtput, Session.files_logs,
      hsaved p rfl, Except.mapError, hsome rfl]
    exact ⟨_, perform_tell_some _ _ _, rfl, (List.append_nil _).symm, by simp⟩

end Respond

/-! ## Jobs -/

theorem makes_of_document (htext : job.document t = .ok text)
    (hsaved : ∀ p, job.output = some p → (t.save p text).1 = .ok ()) :
    ∃ text t', job.Makes t text t' := by
  cases hp : job.output with
  | none => exact ⟨text, t, htext, fun _ ↦ rfl, by simp [hp]⟩
  | some p =>
    refine ⟨text, (t.save p text).2, htext, by simp [hp], ?_⟩
    intro p' hp'
    obtain rfl := Option.some.inj (hp.symm.trans hp')
    exact Prod.ext (hsaved p hp) rfl

/-- A job fails for what its request fails for. -/
theorem rendered_of_error (h : (s.perform job.run).1 = .error failure) :
    job.rendered s = .error failure := by
  cases hreport : job.rendered s with
  | error failure' =>
    obtain ⟨s', hrun, -⟩ := perform_run_of_failure hreport
    rw [hrun] at h
    exact congrArg Except.error (Except.error.inj h)
  | ok rendered =>
    obtain ⟨s', hrun, -⟩ := perform_run_of_rendered hreport
    rw [hrun] at h
    cases h

/-- A job that succeeds has made a document. -/
theorem makes_of_ok (h : (s.perform job.run).1 = .ok ()) :
    ∃ text t', job.Makes s.files text t' := by
  cases hreport : job.rendered s with
  | error failure =>
    obtain ⟨s', hrun, -⟩ := perform_run_of_failure hreport
    rw [hrun] at h
    cases h
  | ok rendered =>
    cases job with
    | enums r =>
      obtain ⟨b, hb, -⟩ := exists_of_map_eq_ok hreport
      rw [r.perform_run] at hb
      obtain ⟨l, hl, hsaved⟩ := saved_of_respond hb
      exact makes_of_document (by rw [document, hl]; rfl) hsaved
    | docs r =>
      obtain ⟨b, hb, -⟩ := exists_of_map_eq_ok hreport
      rw [r.perform_run] at hb
      obtain ⟨pages, hpages, hsaved⟩ := saved_of_respond hb
      exact makes_of_document (by rw [document, hpages]; rfl) hsaved

/-- A job that can make a document succeeds. -/
theorem isDone_of_makes (h : job.Makes s.files text t') :
    ∃ s', s.perform job.run = (.ok (), s') ∧ job.IsDone s text t' s' := by
  cases job with
  | enums r =>
    obtain ⟨l, hl, rfl⟩ := exists_of_map_eq_ok h.document
    obtain ⟨s', hrun, hfiles, hprinted, hlog⟩ :=
      perform_bind_tell_of_respond EnumsReport.output wroteEnums EnumsReport.rendered
        (r.perform_run s) rfl (fun hp ↦ if_pos hp) hl h.unsaved h.saved
    refine ⟨s', hrun, hfiles, ?_, hlog⟩
    rw [hprinted, shown, EnumsRequest.reportOf]
    cases hp : r.output <;> simp [output, streams, hp]
  | docs r =>
    obtain ⟨pages, hpages, rfl⟩ := exists_of_map_eq_ok h.document
    obtain ⟨s', hrun, hfiles, hprinted, hlog⟩ :=
      perform_bind_tell_of_respond DocsReport.output wroteDocs DocsReport.rendered
        (r.perform_run s) rfl (fun hp ↦ if_pos (.inl hp)) hpages h.unsaved h.saved
    refine ⟨s', hrun, hfiles, ?_, hlog⟩
    rw [hprinted, shown, DocsRequest.reportOf]
    cases hp : r.output <;> cases hmode : r.mode <;> simp [output, streams, hp, hmode]

end Job

end Typings
