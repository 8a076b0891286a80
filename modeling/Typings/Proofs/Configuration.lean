import Typings.Configuration
import Typings.Proofs.Job.Session
import Typings.Proofs.JobFile

/-!
# Job files and command lines

A job file takes its paths from a base directory before it looks at them, a command line looks at
them first.  So the jobs that a choice of settings makes in either are the same up to the base
directory, but for an empty path: a job file takes that for the directory itself.
-/

namespace Typings

variable {c : Choice} {order : List Setting} {contents : Text} {base : Path}

theorem isOk_eq_isSome {ε α : Type} (e : Except ε α) : e.isOk = e.toOption.isSome := by
  cases e <;> rfl

/-! ## Jobs below a directory -/

namespace Path

theorem join_nil : join [] = id := funext fun p ↦ by simp [join]

theorem join_eq_nil_iff {p : Path} : join base p = [] ↔ base = [] ∧ p = [] := by
  constructor
  · intro h
    unfold join at h
    split at h
    · next hp =>
      subst h
      simpa [isAbsolute] using hp
    · next hp =>
      rw [Bool.or_eq_true, not_or] at hp
      have hbase : base ≠ [] := by simpa using hp.2
      split at h
      · exact absurd (List.append_eq_nil_iff.mp h).1 hbase
      · exact absurd (List.append_eq_nil_iff.mp h).1 hbase
  · rintro ⟨rfl, rfl⟩
    rfl

theorem isEmpty_join {p : Path} (h : p ≠ []) (base : Path) : (join base p).isEmpty = false := by
  rw [List.isEmpty_eq_false_iff]
  exact fun hjoin ↦ h (join_eq_nil_iff.mp hjoin).2

end Path

/-- The job with its paths taken from a base directory. -/
def Job.below (base : Path) : Job → Job
  | .enums r =>
    .enums { r with input := Path.join base r.input, output := r.output.map (Path.join base) }
  | .docs r =>
    .docs { r with dir := Path.join base r.dir, output := r.output.map (Path.join base) }

namespace EnumsSettings

theorem below_nil (s : EnumsSettings) : s.below [] = s := by
  rw [below, Path.join_nil, Option.map_id]
  rfl

theorem isSome_request_iff (s : EnumsSettings) : s.request.toOption.isSome ↔ s.input ≠ [] := by
  rw [request]
  split
  · next h => simp [List.isEmpty_iff.mp h, Except.toOption]
  · next h => simpa [Except.toOption] using h

/-- An input that is there is as good in front of the base directory as behind it. -/
theorem request_below {s : EnumsSettings} (h : s.input ≠ []) (base : Path) :
    (s.below base).request.toOption.map .enums =
      (s.request.toOption.map .enums).map (Job.below base) := by
  have hinput := Path.isEmpty_join h base
  have hempty : s.input.isEmpty = false := by simpa using h
  simp only [request, below, hinput, hempty, Bool.false_eq_true, if_false]
  rfl

end EnumsSettings

namespace DocsSettings

theorem below_nil (s : DocsSettings) : s.below [] = s := by
  rw [below, Path.join_nil, Option.map_id]
  rfl

theorem losesDocument_eq_true_iff (s : DocsSettings) :
    s.losesDocument = true ↔ s.stream = true ∧ s.output = none ∧ s.format = .json := by
  simp [losesDocument, and_assoc]

theorem losesDocument_below (s : DocsSettings) (base : Path) :
    (s.below base).losesDocument = s.losesDocument := by
  simp [losesDocument, below]

theorem isSome_request_iff (s : DocsSettings) :
    s.request.toOption.isSome ↔ s.dir ≠ [] ∧
      isUselessExtension (s.extension.getD DocsRequest.defaultExtension) = false ∧
      s.losesDocument = false := by
  rw [request]
  split
  · next h => simp [List.isEmpty_iff.mp h, Except.toOption]
  split
  · next h => simp [h, Except.toOption]
  split
  · next h => simp [h, Except.toOption]
  · next hdir hextension hloses => simpa [hextension, hloses, Except.toOption] using hdir

/-- A directory that is there is as good in front of the base directory as behind it. -/
theorem request_below {s : DocsSettings} (h : s.dir ≠ []) (base : Path) :
    (s.below base).request.toOption.map .docs =
      (s.request.toOption.map .docs).map (Job.below base) := by
  have hdir := Path.isEmpty_join h base
  have hempty : s.dir.isEmpty = false := by simpa using h
  have hloses := losesDocument_below s base
  rw [below] at hloses
  simp only [request, below, hdir, hempty, hloses, Bool.false_eq_true, if_false]
  split
  · rfl
  split
  · rfl
  · rfl

end DocsSettings

namespace Choice

/-- The job of a choice, its paths taken from a base directory. -/
def job? (c : Choice) (base : Path) : Option Job := c.task?.bind (Task.job? base)

/-- The settings but for their paths are valid: the format is known, the extension matches pages
and a document in JSON is not streamed away. -/
def IsValid : Choice → Prop
  | .enums _ _ _ name => Format.chosen? name ≠ none
  | .docs _ extension _ stream output name =>
    Format.chosen? name ≠ none ∧
      DocsSettings.isUselessExtension (extension.getD DocsRequest.defaultExtension) = false ∧
      ¬ (stream = true ∧ output = none ∧ Format.chosen? name = some .json)

theorem isSome_job?_iff (c : Choice) (base : Path) :
    (c.job? base).isSome ↔ c.IsValid ∧ (base = [] → c.subject ≠ []) := by
  rw [job?]
  cases c with
  | enums input output banner name =>
    rw [task?, IsValid, subject]
    cases Format.chosen? name with
    | none => simp
    | some format =>
      rw [Option.map_some, Option.bind_some, Task.job?, Option.isSome_map,
        EnumsSettings.isSome_request_iff, EnumsSettings.below, ne_eq, Path.join_eq_nil_iff]
      simp
  | docs dir extension exclude stream output name =>
    rw [task?, IsValid, subject]
    cases Format.chosen? name with
    | none => simp
    | some format =>
      rw [Option.map_some, Option.bind_some, Task.job?, Option.isSome_map,
        DocsSettings.isSome_request_iff, DocsSettings.losesDocument_below, DocsSettings.below, ne_eq,
        Path.join_eq_nil_iff, ← Bool.not_eq_true (DocsSettings.losesDocument _),
        DocsSettings.losesDocument_eq_true_iff]
      simp only [ne_eq, Option.some.injEq, reduceCtorEq]
      tauto

theorem job?_eq_map_below (h : c.subject ≠ []) (base : Path) :
    c.job? base = (c.job? []).map (Job.below base) := by
  rw [job?, job?]
  cases c with
  | enums input output banner name =>
    rw [task?]
    cases Format.chosen? name with
    | none => rfl
    | some format =>
      simp only [Option.map_some, Option.bind_some, Task.job?, EnumsSettings.below_nil]
      exact EnumsSettings.request_below h base
  | docs dir extension exclude stream output name =>
    rw [task?]
    cases Format.chosen? name with
    | none => rfl
    | some format =>
      simp only [Option.map_some, Option.bind_some, Task.job?, DocsSettings.below_nil]
      exact DocsSettings.request_below h base

/-! ## Command lines -/

theorem load_of_parse {env : Environment} {arguments : List Text} {line : CommandLine}
    (h : CommandLine.parse env arguments = .ok line) (hrun : ∀ p, line.task ≠ .run p)
    (s : Session) :
    (s.perform (Configuration.load env arguments)).1.toOption.map (·.jobs) =
      (line.task.job? []).map fun job ↦ [job] := by
  rw [Configuration.load, h]
  dsimp only
  rw [Session.perform_bind]
  cases htask : line.task with
  | enums settings =>
    rw [Configuration.jobsOf, Task.job?, EnumsSettings.below_nil]
    cases settings.request <;> rfl
  | docs settings =>
    rw [Configuration.jobsOf, Task.job?, DocsSettings.below_nil]
    cases settings.request <;> rfl
  | run p => exact absurd htask (hrun p)

/-- What a command line makes of a choice. -/
def loaded (c : Choice) (order : List Setting) (s : Session) :
    Except Configuration.Error Configuration :=
  (s.perform (Configuration.load (fun _ ↦ none) (c.arguments order))).1

theorem loaded_of_not_isAdmitted (horder : order.Perm c.command.options) (h : ¬ c.IsAdmitted)
    (s : Session) : (c.loaded order s).toOption = none := by
  obtain ⟨u, hu⟩ := exists_parse_arguments_eq_error horder h
  rw [loaded, Configuration.load, hu]
  rfl

theorem task?_ne_run (c : Choice) (p : Path) : c.task? ≠ some (.run p) := by
  cases c with
  | enums _ _ _ name => cases Format.chosen? name <;> simp [task?]
  | docs _ _ _ _ _ name => cases Format.chosen? name <;> simp [task?]

/-- A command line makes the job of a choice, if no path is empty. -/
theorem loaded_of_hasPaths (horder : order.Perm c.command.options) (h : c.HasPaths) (s : Session) :
    (c.loaded order s).toOption.map (·.jobs) = (c.job? []).map fun job ↦ [job] := by
  by_cases htask : c.task? = none
  · rw [loaded_of_not_isAdmitted horder (fun hadmitted ↦ hadmitted.2 htask), job?, htask]
    rfl
  · obtain ⟨task, htask, hparse⟩ := parse_arguments horder ⟨h, htask⟩
    rw [loaded, load_of_parse hparse, job?, htask, Option.bind_some]
    rintro p rfl
    exact task?_ne_run c p htask

/-! ## Agreement -/

/-- The jobs that a job file makes are those of a command line with their paths taken from the base
directory, and each accepts what the other does. -/
def Agrees (c : Choice) (order : List Setting) (contents : Text) (base : Path) (s : Session) :
    Prop :=
  (JobFile.parse base contents).toOption =
    (c.loaded order s).toOption.map fun configuration ↦ configuration.jobs.map (Job.below base)

theorem isOk_parse_iff (h : c.IsIn contents) (base : Path) :
    (JobFile.parse base contents).isOk ↔ c.IsValid ∧ (base = [] → c.subject ≠ []) := by
  rw [isOk_eq_isSome, JobFile.parse_of_isIn h, Option.isSome_map, ← isSome_job?_iff]
  rfl

theorem isOk_loaded_iff (horder : order.Perm c.command.options) (s : Session) :
    (c.loaded order s).isOk ↔ c.IsValid ∧ c.HasPaths := by
  rw [isOk_eq_isSome]
  by_cases h : c.HasPaths
  · have hjobs := loaded_of_hasPaths horder h s
    have hsome := congrArg Option.isSome hjobs
    rw [Option.isSome_map, Option.isSome_map] at hsome
    rw [hsome, isSome_job?_iff]
    simp [h, h.1]
  · rw [loaded_of_not_isAdmitted horder (fun hadmitted ↦ h hadmitted.1)]
    simp [h]

theorem agrees_of_hasPaths (horder : order.Perm c.command.options) (hin : c.IsIn contents)
    (h : c.HasPaths) (base : Path) (s : Session) : c.Agrees order contents base s := by
  have hparse := JobFile.parse_of_isIn hin base
  rw [← job?, job?_eq_map_below h.1, Option.map_map] at hparse
  have hload := congrArg (Option.map (List.map (Job.below base))) (loaded_of_hasPaths horder h s)
  rw [Option.map_map, Option.map_map] at hload
  exact hparse.trans hload.symm

theorem agrees_iff_of_isIn (horder : order.Perm c.command.options) (hin : c.IsIn contents)
    (base : Path) (s : Session) :
    c.Agrees order contents base s ↔
      (c.IsValid → c.HasPaths ∨ (base = [] ∧ c.subject = [])) := by
  have hparse := isOk_parse_iff hin base
  have hload := isOk_loaded_iff horder s
  rw [isOk_eq_isSome] at hparse hload
  constructor
  · intro h hvalid
    by_cases hbase : base = [] ∧ c.subject = []
    · exact .inr hbase
    · rw [h, Option.isSome_map, hload] at hparse
      exact .inl (hparse.mpr ⟨hvalid, fun hnil hsubject ↦ hbase ⟨hnil, hsubject⟩⟩).2
  · intro h
    by_cases hpaths : c.HasPaths
    · exact agrees_of_hasPaths horder hin hpaths base s
    · have hrefused : ¬ (c.IsValid ∧ (base = [] → c.subject ≠ [])) := by
        rintro ⟨hvalid, hsubject⟩
        obtain ⟨hnil, hempty⟩ := (h hvalid).resolve_left hpaths
        exact hsubject hnil hempty
      have hnone := mt hparse.mp hrefused
      have hnone' := mt hload.mp fun hok ↦ hpaths hok.2
      rw [Option.not_isSome_iff_eq_none] at hnone hnone'
      rw [Agrees, hnone, hnone']
      rfl

/-- A job file is accepted if its settings are valid and its path is not empty below the base
directory, a command line if its settings are valid and no path is empty.  They agree but for an
empty path that a job file takes for the directory itself. -/
theorem agrees_iff (horder : order.Perm c.command.options) (hin : c.IsIn contents) (base : Path)
    (s : Session) :
    ((JobFile.parse base contents).isOk ↔ c.IsValid ∧ (base = [] → c.subject ≠ [])) ∧
    ((c.loaded order s).isOk ↔ c.IsValid ∧ c.HasPaths) ∧
    (c.Agrees order contents base s ↔
      (c.IsValid → c.HasPaths ∨ (base = [] ∧ c.subject = []))) :=
  ⟨isOk_parse_iff hin base, isOk_loaded_iff horder s, agrees_iff_of_isIn horder hin base s⟩

/-- An output that is empty is refused on a command line alone. -/
theorem agrees_iff_docs :
    let c := Choice.docs "pages".toList none (some []) true (some []) (some "json".toList)
    let order : List Setting := [.format, .docsOutput, .docsStream, .docsExclude, .docsExtension]
    let contents := ("[docs]\nformat = \"json\"\noutput = \"\"\nstream = true\n" ++
      "exclude = \"\"\ndir = \"pages\"\n").toList
    let s : Session := { files := { entries := [], working := [] } }
    (order.Perm c.command.options ∧ c.IsIn contents) ∧
      (JobFile.parse [] contents).isOk ∧ ¬ (c.loaded order s).isOk ∧
      ¬ c.Agrees order contents [] s := by
  intro c order contents s
  have horder : order.Perm c.command.options := by decide
  have hin : c.IsIn contents := isIn_document horder
  have hvalid : c.IsValid := by
    simp only [c, IsValid]
    decide
  have hpaths : ¬ c.HasPaths := fun h ↦ h.2 [] rfl rfl
  have h := agrees_iff horder hin [] s
  refine ⟨⟨horder, hin⟩, h.1.mpr ⟨hvalid, by decide⟩, ?_, ?_⟩
  · exact fun hok ↦ hpaths (h.2.1.mp hok).2
  · intro hagrees
    rcases h.2.2.mp hagrees hvalid with h | ⟨_, h⟩
    · exact hpaths h
    · cases h

-- Below the directory `.` an empty input is that directory.
theorem exists_not_agrees :
    ¬ ∀ (c : Choice) (order : List Setting) (contents : Text) (base : Path) (s : Session),
      order.Perm c.command.options → c.IsIn contents → c.Agrees order contents base s := by
  intro hall
  have horder : Command.enums.options.Perm Command.enums.options := .refl _
  have hin := isIn_document (c := .enums [] none none none) horder
  have h := hall _ _ _ ".".toList { files := { entries := [], working := [] } } horder hin
  have hvalid : (Choice.enums [] none none none).IsValid := by simp [IsValid, Format.chosen?]
  rcases (agrees_iff_of_isIn horder hin _ _).mp h hvalid with h | ⟨h, _⟩
  · exact h.1 rfl
  · cases h

end Choice

end Typings
