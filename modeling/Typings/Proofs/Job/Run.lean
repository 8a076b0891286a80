import Typings.Program
import Typings.Proofs.Job.Docs
import Typings.Proofs.Job.Enums

/-!
# Running jobs

A request writes its document to the output once everything has been read, so that a failure leaves
every regular file as it was (`KeepsFiles`).  Jobs run in order, and print what they hand back, up to
the first that fails, after which nothing happens (`isRun_runIn`).
-/

namespace Typings

namespace FileTree

variable {t t' : FileTree} {P : Path → Prop}

/-- The trees have the same regular files. -/
def SameFiles (t t' : FileTree) : Prop :=
  ∀ l text, t'.lookup l = some (.file text) ↔ t.lookup l = some (.file text)

theorem AddsDirectories.sameFiles (h : AddsDirectories P t t') : SameFiles t t' := by
  intro l text
  rcases h.lookup l with hl | ⟨hnone, hmade, -⟩
  · rw [hl]
  · rw [hnone, hmade]
    exact ⟨nofun, nofun⟩

end FileTree

namespace Job

open FileTree (AddsDirectories SameFiles Saves)

variable {α β : Type} {s s' : Session} {t t' : FileTree} {failure : Failure}

/-! ## Requests -/

/-- What becomes of the files `t` when a request with this output makes a document of them: only a
report that has an output comes with another file. -/
structure KeepsFiles (document : Except Failure Text) (output : Option Path) (handsBack : Bool)
    (rendered : β → Option Text) (t : FileTree) (result : Except Failure β) (t' : FileTree) :
    Prop where
  unread : ∀ failure, result = .error failure → (∀ p e, failure ≠ .write p e) → t' = t
  unwritten : ∀ p e, result = .error (.write p e) →
    output = some p ∧ AddsDirectories (Path.IsAbove · p) t t'
  handedBack : ∀ report, result = .ok report → output = none →
    t' = t ∧ ∃ text, document = .ok text ∧
      rendered report = if handsBack then some text else none
  written : ∀ report p, result = .ok report → output = some p →
    rendered report = none ∧ ∃ text l, document = .ok text ∧ Saves p text t t' l

theorem keepsFiles_respond {found : Except Failure α × List Log.Event} {output : Option Path}
    {document : α → Text} {report : α → β} {rendered : β → Option Text} {handsBack : Bool}
    (hfound : ∀ p e, found.1 ≠ .error (.write p e))
    (hnone : ∀ a, output = none →
      rendered (report a) = if handsBack then some (document a) else none)
    (hsome : ∀ a p, output = some p → rendered (report a) = none) (s : Session) :
    KeepsFiles (found.1.map document) output handsBack rendered s.files
      (s.respond found output document report).1
      (s.respond found output document report).2.files where
  unread failure h hwrite := by
    rcases Session.respond_eq_error h with ⟨-, hfiles⟩ | ⟨a, p, e, -, -, hfailure, -⟩
    · exact hfiles
    · exact absurd hfailure (hwrite p e)
  unwritten p e h := by
    rcases Session.respond_eq_error h with ⟨hsearch, -⟩ | ⟨a, p', e', -, hp, hfailure, hadds⟩
    · exact absurd hsearch (hfound p e)
    · cases hfailure
      exact ⟨hp, hadds⟩
  handedBack b h hp := by
    obtain ⟨a, ha, rfl, hfiles, -⟩ := Session.respond_eq_ok h
    refine ⟨hfiles hp, document a, ?_, hnone a hp⟩
    rw [ha]
    rfl
  written b p h hp := by
    obtain ⟨a, ha, rfl, -, hsaved⟩ := Session.respond_eq_ok h
    obtain ⟨l, hl⟩ := hsaved p hp
    refine ⟨hsome a p hp, document a, l, ?_, hl⟩
    rw [ha]
    rfl

theorem keepsFiles_enums (r : EnumsRequest) (s : Session) :
    KeepsFiles ((r.find s.files).1.map r.documentOf) r.output true EnumsReport.rendered s.files
      (s.perform r.run).1 (s.perform r.run).2.files := by
  rw [r.perform_run]
  apply keepsFiles_respond
  · intro p e h
    rw [EnumsRequest.find] at h
    split at h <;> cases h
  · intro l h
    simp [EnumsRequest.reportOf, h]
  · intro l p h
    simp [EnumsRequest.reportOf, h]

theorem keepsFiles_docs (r : DocsRequest) (s : Session) :
    KeepsFiles ((r.find s.files).1.map r.documentOf) r.output (r.mode != .stream)
      DocsReport.rendered s.files (s.perform r.run).1 (s.perform r.run).2.files := by
  rw [r.perform_run]
  apply keepsFiles_respond
  · exact r.find_ne_write s.files
  · intro pages h
    cases hmode : r.mode <;> simp [DocsRequest.reportOf, h, hmode]
  · intro pages p h
    simp [DocsRequest.reportOf, h]

/-! ## Jobs -/

/-- The text that the report on a job hands back, or why there is no report. -/
def rendered (job : Job) (s : Session) : Except Failure (Option Text) :=
  match job with
  | .enums r => (s.perform r.run).1.map EnumsReport.rendered
  | .docs r => (s.perform r.run).1.map DocsReport.rendered

/-- What a job does once there is a report: it prints the text that the report hands back. -/
def tell (output : Option Path) (event : Path → Log.Event) (text : Option Text) :
    ExceptT Failure (StateM Session) Unit := do
  if let some path := output then
    Host.log (event path) (m := StateM Session)
  if let some document := text then
    Host.print document (m := StateM Session)

theorem perform_tell (s : Session) (output : Option Path) (event : Path → Log.Event)
    (text : Option Text) :
    ∃ s', s.perform (tell output event text) = (.ok (), s') ∧
      s'.printed = s.printed ++ text.getD [] := by
  cases output <;> cases text <;> exact ⟨_, rfl, by simp⟩

section Report

variable {act : ExceptT Failure (StateM Session) β} {f : β → Option Text} {text : Option Text}
variable {next : β → ExceptT Failure (StateM Session) Unit}

theorem perform_bind_tell (output : β → Option Path) (event : Path → β → Log.Event)
    (h : (s.perform act).1.map f = .ok text) :
    ∃ s', s.perform (act >>= fun b ↦ tell (output b) (event · b) (f b)) = (.ok (), s') ∧
      s'.printed = (s.perform act).2.printed ++ text.getD [] := by
  rw [Session.perform_bind]
  rcases hact : s.perform act with ⟨_ | b, s'⟩
  · rw [hact] at h
    cases h
  · rw [hact] at h
    cases h
    exact perform_tell s' _ _ _

theorem perform_bind_of_error (h : (s.perform act).1 = .error failure) :
    s.perform (act >>= next) = (.error failure, (s.perform act).2) := by
  rw [Session.perform_bind]
  rcases hact : s.perform act with ⟨_ | b, s'⟩
  · rw [hact] at h
    cases h
    rfl
  · rw [hact] at h
    cases h

theorem eq_error_of_map {x : Except Failure β} (h : x.map f = .error failure) :
    x = .error failure := by
  cases x with
  | error => exact congrArg Except.error (Except.error.inj h)
  | ok => cases h

end Report

/-- A job that succeeds prints what its report hands back. -/
theorem perform_run_of_rendered {text : Option Text} {job : Job} (h : job.rendered s = .ok text) :
    ∃ s', s.perform job.run = (.ok (), s') ∧ s'.printed = s.printed ++ text.getD [] := by
  cases job with
  | enums r =>
    rw [← r.printed_run s]
    exact perform_bind_tell EnumsReport.output wroteEnums h
  | docs r =>
    rw [← r.printed_run s]
    exact perform_bind_tell DocsReport.output wroteDocs h

theorem KeepsFiles.sameFiles {document : Except Failure Text} {output : Option Path}
    {handsBack : Bool} {f : β → Option Text}
    (h : KeepsFiles document output handsBack f t (.error failure) t') : SameFiles t t' := by
  cases failure with
  | write p e => exact (h.unwritten p e rfl).2.sameFiles
  | load p e =>
    rw [h.unread _ rfl nofun]
    exact fun _ _ ↦ Iff.rfl
  | noExtension =>
    rw [h.unread _ rfl nofun]
    exact fun _ _ ↦ Iff.rfl

/-- A job that fails prints nothing and changes no regular file. -/
theorem perform_run_of_failure {job : Job} (h : job.rendered s = .error failure) :
    ∃ s', s.perform job.run = (.error failure, s') ∧ s'.printed = s.printed ∧
      SameFiles s.files s'.files := by
  cases job with
  | enums r =>
    have hrun := eq_error_of_map h
    have hfiles := keepsFiles_enums r s
    rw [hrun] at hfiles
    exact ⟨_, perform_bind_of_error hrun, r.printed_run s, hfiles.sameFiles⟩
  | docs r =>
    have hrun := eq_error_of_map h
    have hfiles := keepsFiles_docs r s
    rw [hrun] at hfiles
    exact ⟨_, perform_bind_of_error hrun, r.printed_run s, hfiles.sameFiles⟩

/-! ## Lists of jobs -/

/-- The jobs succeed one after the other, and hand back the texts. -/
inductive Succeeds : List Job → Session → List Text → Session → Prop
  | nil {s : Session} : Succeeds [] s [] s
  | cons {job : Job} {jobs : List Job} {s s' s'' : Session} {text : Option Text}
      {texts : List Text} : job.rendered s = .ok text → s.perform job.run = (.ok (), s') →
        Succeeds jobs s' texts s'' → Succeeds (job :: jobs) s (text.getD [] :: texts) s''

/-- What a list of jobs comes to in a session: how many succeeded, why the next did not, and the
session after that. -/
def runIn (s : Session) (jobs : List Job) : (Nat × Option Failure) × Session :=
  (runAll jobs : StateM Session _).run s

theorem runIn_cons_of_ok {job : Job} (h : s.perform job.run = (.ok (), s')) (jobs : List Job) :
    runIn s (job :: jobs) =
      (((runIn s' jobs).1.1 + 1, (runIn s' jobs).1.2), (runIn s' jobs).2) := by
  rw [Session.perform] at h
  rw [runIn, runAll, StateT.run_bind, h]
  rfl

theorem runIn_cons_of_error {job : Job} (h : s.perform job.run = (.error failure, s'))
    (jobs : List Job) : runIn s (job :: jobs) = ((0, some failure), s') := by
  rw [Session.perform] at h
  rw [runIn, runAll, StateT.run_bind, h]
  rfl

/-- What happened when `n` jobs succeeded: they were the first ones, and handed back the texts,
which were printed and nothing else.  There was no further job, or the next one failed, without a
word and with every regular file as it was. -/
structure IsRun (jobs : List Job) (s : Session) (n : Nat) (failure : Option Failure) (s' : Session)
    (texts : List Text) (middle : Session) : Prop where
  succeeds : Succeeds (jobs.take n) s texts middle
  printed : s'.printed = s.printed ++ texts.flatten
  done : failure = none → n = jobs.length ∧ s' = middle
  failed : ∀ f, failure = some f → ∃ job, jobs[n]? = some job ∧
    middle.perform job.run = (.error f, s') ∧ s'.printed = middle.printed ∧
      SameFiles middle.files s'.files

theorem isRun_runIn (s : Session) (jobs : List Job) :
    ∃ texts middle,
      IsRun jobs s (runIn s jobs).1.1 (runIn s jobs).1.2 (runIn s jobs).2 texts middle := by
  induction jobs generalizing s with
  | nil => exact ⟨[], s, .nil, (List.append_nil _).symm, fun _ ↦ ⟨rfl, rfl⟩, nofun⟩
  | cons job jobs ih =>
    cases h : job.rendered s with
    | error failure =>
      obtain ⟨s', hrun, hprinted, hfiles⟩ := perform_run_of_failure h
      rw [runIn_cons_of_error hrun]
      refine ⟨[], s, .nil, hprinted.trans (List.append_nil _).symm, nofun, ?_⟩
      rintro _ ⟨⟩
      exact ⟨job, rfl, hrun, hprinted, hfiles⟩
    | ok text =>
      obtain ⟨s', hrun, hprinted⟩ := perform_run_of_rendered h
      obtain ⟨texts, middle, hrest⟩ := ih s'
      rw [runIn_cons_of_ok hrun]
      refine ⟨text.getD [] :: texts, middle, .cons h hrun hrest.succeeds, ?_, ?_, hrest.failed⟩
      · rw [hrest.printed, hprinted, List.flatten_cons, List.append_assoc]
      · intro hdone
        obtain ⟨hlength, hsame⟩ := hrest.done hdone
        exact ⟨congrArg Nat.succ hlength, hsame⟩

end Job

/-! ## The program -/

theorem Configuration.snd_load (env : Environment) (arguments : List Text) (s : Session) :
    (s.perform (Configuration.load env arguments)).2 = s := by
  have hjobs : ∀ task, (s.perform (Configuration.jobsOf task)).2 = s := by
    intro task
    cases task with
    | enums settings =>
      rw [Configuration.jobsOf]
      cases settings.request <;> rfl
    | docs settings =>
      rw [Configuration.jobsOf]
      cases settings.request <;> rfl
    | run path =>
      rw [Configuration.jobsOf, Session.perform_liftM_bind, Session.run_readText]
      cases s.files.readText path with
      | error e => rfl
      | ok contents =>
        dsimp only
        cases JobFile.parse ((Path.parent? path).getD []) contents <;> rfl
  rw [Configuration.load]
  cases CommandLine.parse env arguments with
  | error u => rfl
  | ok line =>
    dsimp only
    have hline := hjobs line.task
    rw [Session.perform_bind]
    rcases hrun : s.perform (Configuration.jobsOf line.task) with ⟨_ | jobs, s'⟩
    · rwa [hrun] at hline
    · rwa [hrun] at hline

/-- How the program ends when its jobs did. -/
def Program.ending : Option Job.Failure → Program.Outcome
  | none => .done
  | some f => .failed f

/-- The program runs the jobs that it is configured for, and does nothing else. -/
theorem Program.run_of_load {env : Environment} {arguments : List Text} {s : Session}
    {c : Configuration} (h : (s.perform (Configuration.load env arguments)).1 = .ok c) :
    (Program.run env arguments : StateM Session _).run s =
      (Program.ending (Job.runIn s c.jobs).1.2, (Job.runIn s c.jobs).2) := by
  have hload : s.perform (Configuration.load env arguments) = (.ok c, s) :=
    Prod.ext h (Configuration.snd_load env arguments s)
  rw [Session.perform] at hload
  rw [Program.run, StateT.run_bind, hload]
  change StateT.run ((Host.filterLog c.logFilter : StateM Session _) >>= _) s = _
  rw [StateT.run_bind]
  change StateT.run ((Job.runAll c.jobs : StateM Session _) >>= _) s = _
  rw [StateT.run_bind]
  rcases hrun : Job.runIn s c.jobs with ⟨⟨_, failure⟩, s'⟩
  rw [Job.runIn] at hrun
  rw [hrun]
  cases failure <;> rfl

namespace Job

/-- A request that fails leaves every regular file as it was, and one that succeeds changes its
output alone.  Jobs run in order up to the first that fails, and what is printed are the texts of
the jobs before that. -/
theorem run_effects :
    (∀ (r : EnumsRequest) (s : Session),
      KeepsFiles ((r.find s.files).1.map r.documentOf) r.output true EnumsReport.rendered s.files
        (s.perform r.run).1 (s.perform r.run).2.files) ∧
    (∀ (r : DocsRequest) (s : Session),
      KeepsFiles ((r.find s.files).1.map r.documentOf) r.output (r.mode != .stream)
        DocsReport.rendered s.files (s.perform r.run).1 (s.perform r.run).2.files) ∧
    (∀ (jobs : List Job) (s : Session), ∃ texts middle,
      IsRun jobs s (runIn s jobs).1.1 (runIn s jobs).1.2 (runIn s jobs).2 texts middle) ∧
    ∀ (env : Environment) (arguments : List Text) (s : Session) (c : Configuration),
      (s.perform (Configuration.load env arguments)).1 = .ok c →
        (Program.run env arguments : StateM Session _).run s =
          (Program.ending (runIn s c.jobs).1.2, (runIn s c.jobs).2) :=
  ⟨keepsFiles_enums, keepsFiles_docs, fun jobs s ↦ isRun_runIn s jobs,
    fun _ _ _ _ h ↦ Program.run_of_load h⟩

/-- Nothing happens if the listing is not there. -/
theorem run_effects_of_missing :
    let s : Session := { files := { entries := [], working := [] } }
    (Program.run (fun _ ↦ none) ["enums".toList, "a.lua".toList] : StateM Session _).run s =
      (.failed (.load "a.lua".toList .notFound), s) := by
  intro s
  have hload : (s.perform (Configuration.load (fun _ ↦ none)
      ["enums".toList, "a.lua".toList])).1 =
      .ok { logFilter := CommandLine.defaultLogFilter
            jobs := [.enums { input := "a.lua".toList }] } := by
    rfl
  have hrun : runIn s [.enums { input := "a.lua".toList }] =
      ((0, some (.load "a.lua".toList .notFound)), s) := by
    rfl
  have := run_effects.2.2.2 _ _ s _ hload
  rw [this, hrun]
  rfl

end Job

end Typings
