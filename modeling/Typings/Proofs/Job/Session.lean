import Typings.Job.Source
import Typings.Proofs.Files.Saving

/-!
# Acts in a session

An act in a session gives a result and the session after it.  Reading leaves the session as it was
(`perform_load`), and a document that is saved changes the files alone (`perform_save`).
-/

namespace Typings

namespace Session

variable {ε α β : Type} {s s' : Session}

/-- What an act comes to in a session, and the session after it. -/
def perform (s : Session) (act : ExceptT ε (StateM Session) α) : Except ε α × Session :=
  act.run.run s

@[simp] theorem perform_pure (s : Session) (a : α) :
    s.perform (pure a : ExceptT ε (StateM Session) α) = (.ok a, s) := rfl

@[simp] theorem perform_throw (s : Session) (e : ε) :
    s.perform (throw e : ExceptT ε (StateM Session) α) = (.error e, s) := rfl

@[simp] theorem perform_liftM (s : Session) (act : StateM Session α) :
    s.perform (liftM act : ExceptT ε (StateM Session) α) = (.ok (act.run s).1, (act.run s).2) := rfl

theorem perform_bind (s : Session) (act : ExceptT ε (StateM Session) α)
    (next : α → ExceptT ε (StateM Session) β) :
    s.perform (act >>= next) =
      match s.perform act with
      | (.ok a, s') => s'.perform (next a)
      | (.error e, s') => (.error e, s') := by
  rw [perform, ExceptT.run_bind, StateT.run_bind]
  change StateT.run (match (s.perform act).1 with
    | .ok a => (next a).run
    | .error e => pure (.error e)) (s.perform act).2 = _
  rcases s.perform act with ⟨_ | _, s'⟩ <;> rfl

theorem perform_liftM_bind (s : Session) (act : StateM Session α)
    (next : α → ExceptT ε (StateM Session) β) :
    s.perform (liftM act >>= next) = (act.run s).2.perform (next (act.run s).1) := rfl

/-! ## The host -/

/-- The session with further log entries. -/
def logs (s : Session) (events : List Log.Event) : Session :=
  { s with log := s.log ++ events }

@[simp] theorem logs_nil (s : Session) : s.logs [] = s := by
  rw [logs, List.append_nil]

@[simp] theorem logs_logs (s : Session) (events events' : List Log.Event) :
    (s.logs events).logs events' = s.logs (events ++ events') := by
  simp [logs]

@[simp] theorem files_logs (s : Session) (events : List Log.Event) :
    (s.logs events).files = s.files := rfl

/-- The session with other files. -/
def withFiles (s : Session) (files : FileTree) : Session := { s with files }

@[simp] theorem files_withFiles (s : Session) (files : FileTree) :
    (s.withFiles files).files = files := rfl

@[simp] theorem run_readText (s : Session) (p : Path) :
    (Host.readText p : StateM Session _).run s = (s.files.readText p, s) := rfl

@[simp] theorem run_list (s : Session) (p : Path) :
    (Host.list p : StateM Session _).run s = (s.files.list p, s) := rfl

@[simp] theorem run_makeDirectories (s : Session) (p : Path) :
    (Host.makeDirectories p : StateM Session _).run s =
      ((s.files.makeDirectories p).1, s.withFiles (s.files.makeDirectories p).2) := rfl

@[simp] theorem run_writeText (s : Session) (p : Path) (t : Text) :
    (Host.writeText p t : StateM Session _).run s =
      ((s.files.tryWrite p t).1, s.withFiles (s.files.tryWrite p t).2) := by
  simp only [Host.writeText, StateT.run, FileTree.tryWrite]
  cases s.files.writeText p t <;> rfl

@[simp] theorem run_log (s : Session) (e : Log.Event) :
    (Host.log e : StateM Session _).run s = ((), s.logs [e]) := rfl

@[simp] theorem run_logAll (s : Session) (events : List Log.Event) :
    (Host.logAll events : StateM Session _).run s = ((), s.logs events) := by
  induction events generalizing s with
  | nil =>
    rw [logs_nil]
    rfl
  | cons e events ih =>
    rw [Host.logAll, StateT.run_bind, run_log]
    refine (ih (s.logs [e])).trans ?_
    rw [logs_logs, List.singleton_append]

theorem perform_log_if (s : Session) (c : Prop) [Decidable c] (e : Log.Event)
    (act : ExceptT ε (StateM Session) α) :
    s.perform (if c then do
        liftM (Host.log e : StateM Session Unit)
        act
      else act) = (s.logs (if c then [e] else [])).perform act := by
  by_cases hc : c
  · rw [if_pos hc, if_pos hc, perform_liftM_bind, run_log]
  · rw [if_neg hc, if_neg hc, logs_nil]

/-! ## Loading and saving -/

theorem perform_load (s : Session) (p : Path) :
    s.perform (Job.load p) = ((s.files.readText p).mapError (.load p), s) := by
  rw [Job.load, perform_bind, perform_liftM, run_readText]
  cases s.files.readText p <;> rfl

/-- Writes a document where its directory is known to be there. -/
def write (p : Path) (document : Text) : ExceptT Job.Failure (StateM Session) Unit := do
  if let .error e ← liftM (Host.writeText p document : StateM Session _) then
    throw (.write p e)

theorem perform_write (s : Session) (p : Path) (document : Text) :
    s.perform (write p document) =
      ((s.files.tryWrite p document).1.mapError (.write p),
        s.withFiles (s.files.tryWrite p document).2) := by
  rw [write, perform_bind, perform_liftM, run_writeText]
  rcases s.files.tryWrite p document with ⟨_ | _, t⟩ <;> rfl

theorem perform_save (s : Session) (p : Path) (document : Text) :
    s.perform (Job.save p document) =
      ((s.files.save p document).1.mapError (.write p),
        s.withFiles (s.files.save p document).2) := by
  rw [Job.save, FileTree.save, FileTree.makeParent]
  cases Path.parent? p with
  | none => exact perform_write s p document
  | some q =>
    dsimp only
    rw [perform_bind, perform_liftM, run_makeDirectories]
    rcases s.files.makeDirectories q with ⟨_ | _, t⟩
    · rfl
    · exact perform_write (s.withFiles t) p document

/-- Saves a document to the output, if there is one. -/
def deliver (s : Session) (output : Option Path) (document : Text) :
    Except Job.Failure Unit × Session :=
  match output with
  | none => (.ok (), s)
  | some p => ((s.files.save p document).1.mapError (.write p),
      s.withFiles (s.files.save p document).2)

theorem perform_deliver (s : Session) (output : Option Path) (document : Text) (a : α) :
    s.perform (do
        if let some p := output then
          Job.save p document
        return a) =
      ((s.deliver output document).1.map fun _ ↦ a, (s.deliver output document).2) := by
  cases output with
  | none => rfl
  | some p =>
    rw [perform_bind, perform_save, deliver]
    rcases s.files.save p document with ⟨_ | _, t⟩ <;> rfl

/-- What becomes of a session that is asked for a report: the log takes what is said about the
search, and a document made of what was found is saved to the output. -/
def respond (s : Session) (found : Except Job.Failure α × List Log.Event) (output : Option Path)
    (document : α → Text) (report : α → β) : Except Job.Failure β × Session :=
  match found with
  | (.error failure, events) => (.error failure, s.logs events)
  | (.ok a, events) =>
    (((s.logs events).deliver output (document a)).1.map fun _ ↦ report a,
      ((s.logs events).deliver output (document a)).2)

variable {found : Except Job.Failure α × List Log.Event} {output : Option Path}
variable {document : α → Text} {report : α → β} {b : β} {failure : Job.Failure}

/-- A report is on what was found. The document of that is in the output, if there is one, and the
files are as they were if there is none. -/
theorem respond_eq_ok (h : (s.respond found output document report).1 = .ok b) :
    ∃ a, found.1 = .ok a ∧ b = report a ∧
      (output = none → (s.respond found output document report).2.files = s.files) ∧
      ∀ p, output = some p → ∃ l, FileTree.Saves p (document a) s.files
        (s.respond found output document report).2.files l := by
  obtain ⟨_ | a, events⟩ := found
  · cases h
  · cases output with
    | none =>
      cases h
      exact ⟨a, rfl, rfl, fun _ ↦ rfl, nofun⟩
    | some p =>
      rw [respond, deliver] at h ⊢
      dsimp only at h ⊢
      cases hsave : (s.files.save p (document a)).1 with
      | error e => simp [hsave, Except.mapError, Except.map] at h
      | ok =>
        simp only [files_logs, hsave, Except.mapError, Except.map, Except.ok.injEq] at h
        refine ⟨a, rfl, h.symm, nofun, ?_⟩
        rintro _ ⟨⟩
        exact FileTree.save_ok hsave

/-- Without a report, either nothing was found, and the files are as they were, or the document
could not be saved, and no more than directories above the output were made. -/
theorem respond_eq_error (h : (s.respond found output document report).1 = .error failure) :
    (found.1 = .error failure ∧
      (s.respond found output document report).2.files = s.files) ∨
      ∃ a p e, found.1 = .ok a ∧ output = some p ∧ failure = .write p e ∧
        FileTree.AddsDirectories (Path.IsAbove · p) s.files
          (s.respond found output document report).2.files := by
  obtain ⟨_ | a, events⟩ := found
  · cases h
    exact .inl ⟨rfl, rfl⟩
  · cases output with
    | none => cases h
    | some p =>
      rw [respond, deliver] at h ⊢
      dsimp only at h ⊢
      cases hsave : (s.files.save p (document a)).1 with
      | error e =>
        simp only [files_logs, hsave, Except.mapError, Except.map, Except.error.injEq] at h
        exact .inr ⟨a, p, e, rfl, rfl, h.symm, FileTree.save_error hsave⟩
      | ok => simp [hsave, Except.mapError, Except.map] at h

theorem respond_of_error (h : found.1 = .error failure) :
    (s.respond found output document report).1 = .error failure := by
  obtain ⟨_ | a, events⟩ := found
  · exact congrArg Except.error (Except.error.inj h)
  · cases h

theorem respond_of_ok (s : Session) (document : α → Text) (report : α → β) {a : α}
    (h : found.1 = .ok a) :
    (s.respond found none document report).1 = .ok (report a) := by
  obtain ⟨_ | _, events⟩ := found
  · cases h
  · cases h
    rfl

theorem printed_respond (s : Session) (found : Except Job.Failure α × List Log.Event)
    (output : Option Path) (document : α → Text) (report : α → β) :
    (s.respond found output document report).2.printed = s.printed := by
  obtain ⟨_ | a, events⟩ := found <;> cases output <;> rfl

theorem log_respond (s : Session) (found : Except Job.Failure α × List Log.Event)
    (output : Option Path) (document : α → Text) (report : α → β) :
    (s.respond found output document report).2.log = s.log ++ found.2 := by
  obtain ⟨_ | a, events⟩ := found <;> cases output <;> rfl

section Agree

variable {γ δ : Type} {found' : Except Job.Failure α × List Log.Event} {document' : α → Text}
variable {report' : α → γ} {f : β → δ} {f' : γ → δ}

/-- The log, and whatever there is to report, has no bearing on the files. -/
theorem files_respond_congr (h : found.1 = found'.1) :
    (s.respond found output document report).2.files =
      (s.respond found' output document report').2.files := by
  obtain ⟨x, events⟩ := found
  obtain ⟨_, events'⟩ := found'
  obtain rfl := h
  cases x <;> cases output <;> rfl

/-- What was found and where it goes decide between failure and report, not the text. -/
theorem map_respond_congr (h : found.1 = found'.1) (hreport : ∀ a, f (report a) = f' (report' a)) :
    (s.respond found output document report).1.map f =
      (s.respond found' output document' report').1.map f' := by
  obtain ⟨x, events⟩ := found
  obtain ⟨_, events'⟩ := found'
  obtain rfl := h
  cases x with
  | error failure => rfl
  | ok a =>
    cases output with
    | none => exact congrArg Except.ok (hreport a)
    | some p =>
      simp only [respond, deliver, files_logs,
        FileTree.save_fst s.files p (document a) (document' a)]
      cases (s.files.save p (document' a)).1 with
      | error e => rfl
      | ok => exact congrArg Except.ok (hreport a)

end Agree

/-! ## Same sessions -/

/-- The sessions have the same log and output, and their trees the same things. -/
structure Same (s s' : Session) : Prop where
  files : FileTree.Same s.files s'.files
  log : s.log = s'.log
  printed : s.printed = s'.printed

theorem Same.logs (h : Same s s') (events : List Log.Event) :
    Same (s.logs events) (s'.logs events) :=
  ⟨h.files, congrArg (· ++ events) h.log, h.printed⟩

theorem deliver_congr (h : Same s s') (output : Option Path) (document : Text) :
    (s.deliver output document).1 = (s'.deliver output document).1 ∧
      Same (s.deliver output document).2 (s'.deliver output document).2 := by
  cases output with
  | none => exact ⟨rfl, h⟩
  | some p =>
    obtain ⟨houtcome, hfiles⟩ := FileTree.save_congr h.files p document
    exact ⟨congrArg (Except.mapError _) houtcome, hfiles, h.log, h.printed⟩

theorem respond_congr (h : Same s s') (found : Except Job.Failure α × List Log.Event)
    (output : Option Path) (document : α → Text) (report : α → β) :
    (s.respond found output document report).1 = (s'.respond found output document report).1 ∧
      Same (s.respond found output document report).2
        (s'.respond found output document report).2 := by
  obtain ⟨_ | a, events⟩ := found
  · exact ⟨rfl, h.logs events⟩
  · obtain ⟨hresult, hsame⟩ := deliver_congr (h.logs events) output (document a)
    exact ⟨congrArg (Except.map _) hresult, hsame⟩

end Session

end Typings
