import Typings.Proofs.Declaration.Json
import Typings.Proofs.Job.Effect
import Typings.Proofs.Job.Streaming

/-!
# Accepted jobs

The settings of a job are checked before it is accepted (`Job.IsSound`), whichever way they come
in.  A job that was accepted does not fail for its settings, and no record that it finds gets lost:
all of them are in its output file, or else in what it prints, or else in the log
(`Configuration.load_sound`).
-/

namespace Typings

variable {s s' : Session} {t t' : FileTree} {ds : List Declaration} {text : Text}

/-! ## Documents -/

/-- The document gives the declarations: their blocks with a line feed between them, behind whatever
else there is, or JSON that is read as them. -/
def Format.Gives (ds : List Declaration) (document : Text) : Format → Prop
  | .declarations =>
    ∃ front, document = front ++ List.intercalate ['\n'] (ds.map Block.render)
  | .json => Json.read (Json.Reader.list Declaration.reader) document = .ok ds

theorem Format.gives_render (f : Format) (banner : Option Text) (ds : List Declaration) :
    f.Gives ds (f.render banner ds) := by
  cases f with
  | json => exact Format.read_render_json banner ds
  | declarations =>
    rw [Gives, ← Document.render_eq_intercalate, Format.render]
    cases banner with
    | none => exact ⟨[], rfl⟩
    | some b =>
      rw [Document.renderWith]
      split
      · exact ⟨[], rfl⟩
      · exact ⟨_, rfl⟩

/-! ## Settings of a scan -/

theorem DocsRequest.pageExtension_of_find {r : DocsRequest}
    (h : (r.find t).1 = .error .noExtension) : r.pageExtension = [] := by
  rw [find] at h
  split at h
  · next hempty => exact List.isEmpty_iff.mp hempty
  split at h
  · cases h
  split at h
  · next hread =>
    cases h
    obtain ⟨_, _, _, -, -, hfailure⟩ := readPages_eq_some (congrArg Prod.snd hread)
    cases hfailure
  · cases h

namespace Job

variable {job : Job} {found : List (Text × List Declaration)}

/-! ## Records found -/

/-- The records that are to be found in the files: those of the listing, or those of each page,
under the name of where they come from. -/
inductive Finds (t : FileTree) : Job → List (Text × List Declaration) → Prop
  | listing {r : EnumsRequest} {source : Text} : t.readText r.input = .ok source →
      Finds t (.enums r) [(r.input, (Listing.parse {} source).records)]
  | pages {r : DocsRequest} {entries : List (Text × Bool)}
      {found : List (Text × List Declaration)} : t.list r.dir = .ok entries →
      List.Forall₂ (fun name x ↦ x.1 = name ∧ ∃ markup,
        t.readText (Path.join r.dir name) = .ok markup ∧ x.2 = (Page.parse {} markup).records)
        (r.pageNames entries) found → Finds t (.docs r) found

/-- The session `s'` has got the records, which the session `s` had not: they are in a document in
the output of the job or, without an output, in what is printed, or each is a block in the log. -/
inductive Delivers (job : Job) (found : List (Text × List Declaration)) (s s' : Session) : Prop
  | saved {p : Path} {document : Text} : job.output = some p → s'.files.readText p = .ok document →
      job.format.Gives (found.flatMap Prod.snd) document → Delivers job found s s'
  | printed {document : Text} : job.output = none → job.streams = false →
      s'.printed = s.printed ++ document → job.format.Gives (found.flatMap Prod.snd) document →
        Delivers job found s s'
  | logged {events : List Log.Event} : job.output = none → job.streams = true →
      s'.log = s.log ++ events →
      events.filter DocsRequest.isBlock =
        found.flatMap (fun x ↦ x.2.map (DocsRequest.blockEvent x.1)) → Delivers job found s s'

/-- What a job makes a document of is what it finds. -/
theorem finds_of_document (h : job.document t = .ok text) :
    ∃ found, job.Finds t found ∧ job.format.Gives (found.flatMap Prod.snd) text ∧
      (job.streams = true → (job.searchLog t).filter DocsRequest.isBlock =
        found.flatMap fun x ↦ x.2.map (DocsRequest.blockEvent x.1)) := by
  cases job with
  | enums r =>
    obtain ⟨l, hl, rfl⟩ := exists_of_map_eq_ok h
    rw [EnumsRequest.find] at hl
    cases hsource : t.readText r.input with
    | error e => rw [hsource] at hl; cases hl
    | ok source =>
      rw [hsource] at hl
      obtain rfl := Except.ok.inj hl
      refine ⟨_, .listing hsource, ?_, by simp [streams]⟩
      rw [List.flatMap_singleton]
      exact Format.gives_render _ _ _
  | docs r =>
    obtain ⟨pages, hpages, rfl⟩ := exists_of_map_eq_ok h
    obtain ⟨entries, hlist, hread⟩ := DocsRequest.find_eq_ok hpages
    have hnames := DocsRequest.map_fst_of_readPages (congrArg Prod.snd hread)
    have hmarkup := (DocsRequest.readPages_spec r t (r.pageNames entries)).2
    rw [hread] at hnames hmarkup
    refine ⟨pages.map fun x ↦ (x.1, x.2.records), .pages hlist ?_, ?_, ?_⟩
    · rw [← hnames, List.forall₂_map_left_iff, List.forall₂_map_right_iff, List.forall₂_same]
      intro x hx
      obtain ⟨markup, htext, hpage⟩ := hmarkup x hx
      exact ⟨rfl, markup, htext, congrArg Page.records hpage⟩
    · have hrecords : (pages.map fun x ↦ (x.1, x.2.records)).flatMap Prod.snd =
          DocsRequest.recordsOf pages := by
        simp [DocsRequest.recordsOf, List.flatMap_map]
      rw [hrecords]
      exact Format.gives_render _ _ _
    · intro hstream
      rw [List.flatMap_map]
      exact DocsRequest.filter_find_stream (by simpa [streams] using hstream) hpages

/-- A job that succeeds delivers what it finds. -/
theorem delivers_of_ok (h : (s.perform job.run).1 = .ok ()) :
    ∃ found, job.Finds s.files found ∧ job.Delivers found s (s.perform job.run).2 := by
  obtain ⟨text, t', hmakes⟩ := makes_of_ok h
  obtain ⟨s', hrun, hdone⟩ := isDone_of_makes hmakes
  obtain ⟨found, hfinds, hgives, hblocks⟩ := finds_of_document hmakes.document
  refine ⟨found, hfinds, ?_⟩
  rw [hrun]
  cases hp : job.output with
  | some p =>
    have hsaved := hmakes.saved p hp
    obtain ⟨l, hl⟩ := FileTree.save_ok (congrArg Prod.fst hsaved)
    rw [hsaved, ← hdone.files] at hl
    exact .saved hp hl.readText hgives
  | none =>
    cases hstreams : job.streams with
    | true => exact .logged hp hstreams (hdone.log hp) (hblocks hstreams)
    | false =>
      refine .printed hp hstreams ?_ hgives
      rw [hdone.printed, shown, if_neg (by simp [hp, hstreams])]

/-! ## Settings -/

def banner : Job → Option Text
  | .enums r => r.banner
  | .docs _ => none

/-- The name of the page that is passed over. -/
def exclude : Job → Option Text
  | .enums _ => none
  | .docs r => r.exclude

/-- A job that can be carried out: it says which pages it is about, and its records have somewhere
to go.  What it leaves out it leaves out altogether. -/
structure IsSound (job : Job) : Prop where
  banner : ∀ b, job.banner = some b → Text.isBlankText b = false
  exclude : ∀ name, job.exclude = some name → Text.isBlankText name = false
  extension : ∀ r, job = .docs r → r.pageExtension ≠ []
  keeps : ¬ (job.streams = true ∧ job.format = .json ∧ job.output = none)

theorem isBlankText_of_filled {value : Option Text} (h : Text.filled value = some text) :
    Text.isBlankText text = false := by
  rw [Text.filled, Option.filter_eq_some_iff] at h
  simpa using h.2

/-- Sound jobs do not fail for want of an extension. -/
theorem IsSound.run_ne_noExtension (h : job.IsSound) (s : Session) :
    (s.perform job.run).1 ≠ .error .noExtension := by
  intro hrun
  have hreport := rendered_of_error hrun
  cases job with
  | enums r =>
    have hrespond := eq_error_of_map hreport
    rw [r.perform_run] at hrespond
    rcases Session.respond_eq_error hrespond with ⟨hfind, -⟩ | ⟨_, _, _, -, -, hwrite, -⟩
    · rw [EnumsRequest.find] at hfind
      split at hfind <;> cases hfind
    · cases hwrite
  | docs r =>
    have hrespond := eq_error_of_map hreport
    rw [r.perform_run] at hrespond
    rcases Session.respond_eq_error hrespond with ⟨hfind, -⟩ | ⟨_, _, _, -, -, hwrite, -⟩
    · exact h.extension r rfl (DocsRequest.pageExtension_of_find hfind)
    · cases hwrite

end Job

theorem EnumsSettings.isSound_of_request {settings : EnumsSettings} {r : EnumsRequest}
    (h : settings.request = .ok r) : (Job.enums r).IsSound := by
  rw [request] at h
  split at h
  · cases h
  · cases h
    exact ⟨fun _ ↦ Job.isBlankText_of_filled, nofun, nofun, nofun⟩

theorem DocsSettings.isSound_of_request {settings : DocsSettings} {r : DocsRequest}
    (h : settings.request = .ok r) : (Job.docs r).IsSound := by
  rw [request] at h
  split at h
  · cases h
  split at h
  · cases h
  split at h
  · cases h
  · next huseless hloses =>
    cases h
    refine ⟨nofun, ?_, ?_, ?_⟩
    · intro name hname
      simp only [Job.exclude] at hname
      exact Job.isBlankText_of_filled hname
    · -- where nothing is left behind the dots, what is left is blank
      rintro _ ⟨⟩ hnil
      rw [DocsRequest.pageExtension] at hnil
      rw [isUselessExtension, hnil] at huseless
      exact huseless rfl
    · rintro ⟨hstreams, hformat, houtput⟩
      have hstream : settings.stream = true := by
        by_contra hstream
        simp [Job.streams, hstream] at hstreams
      refine hloses ?_
      rw [losesDocument, hstream, show settings.output = none from houtput,
        show settings.format = .json from hformat]
      rfl

namespace JobFile

variable {base : Path} {jobs : List Job}

theorem exists_of_bind_eq_ok {ε α β : Type} {x : Except ε α} {f : α → Except ε β} {b : β}
    (h : x >>= f = .ok b) : ∃ a, x = .ok a ∧ f a = .ok b := by
  cases x with
  | error e => cases h
  | ok a => exact ⟨a, rfl, h⟩

theorem isSound_of_docs {docs : Option DocsSettings} {enums : List Job}
    (henums : ∀ job ∈ enums, job.IsSound)
    (h : (match docs with
      | some settings => do
        let r ← (settings.below base).request
        pure (enums ++ [Job.docs r])
      | none => pure (enums ++ [])) = .ok jobs) : ∀ job ∈ jobs, job.IsSound := by
  cases docs with
  | none =>
    cases h
    simpa using henums
  | some settings =>
    obtain ⟨r, hr, h⟩ := exists_of_bind_eq_ok h
    cases h
    intro job hjob
    rcases List.mem_append.mp hjob with hjob | hjob
    · exact henums job hjob
    · obtain rfl := List.mem_singleton.mp hjob
      exact DocsSettings.isSound_of_request hr

theorem isSound_of_jobs {f : JobFile} (h : f.jobs base = .ok jobs) : ∀ job ∈ jobs, job.IsSound := by
  rw [JobFile.jobs] at h
  split at h
  · obtain ⟨r, hr, h⟩ := exists_of_bind_eq_ok h
    refine isSound_of_docs ?_ h
    intro job hjob
    obtain rfl := List.mem_singleton.mp hjob
    exact EnumsSettings.isSound_of_request hr
  · refine isSound_of_docs ?_ h
    exact nofun

theorem isSound_of_parse {contents : Text} (h : parse base contents = .ok jobs) :
    ∀ job ∈ jobs, job.IsSound := by
  rw [parse] at h
  split at h
  · cases h
  split at h
  · cases h
  · cases h
  · next hjobs =>
    cases h
    exact isSound_of_jobs hjobs

end JobFile

/-! ## Configurations -/

namespace Configuration

theorem isSound_of_jobsOf {task : Task} {jobs : List Job}
    (h : (s.perform (jobsOf task)).1 = .ok jobs) : ∀ job ∈ jobs, job.IsSound := by
  cases task with
  | enums settings =>
    rw [jobsOf] at h
    split at h
    · next hr =>
      cases h
      rintro _ (_ | ⟨_, ⟨⟩⟩)
      exact EnumsSettings.isSound_of_request hr
    · cases h
  | docs settings =>
    rw [jobsOf] at h
    split at h
    · next hr =>
      cases h
      rintro _ (_ | ⟨_, ⟨⟩⟩)
      exact DocsSettings.isSound_of_request hr
    · cases h
  | run path =>
    rw [jobsOf, Session.perform_liftM_bind, Session.run_readText] at h
    split at h
    · cases h
    split at h
    · next hjobs =>
      cases h
      exact JobFile.isSound_of_parse hjobs
    · cases h

theorem isSound_of_load {env : Environment} {arguments : List Text} {c : Configuration}
    (h : (s.perform (load env arguments)).1 = .ok c) : ∀ job ∈ c.jobs, job.IsSound := by
  rw [load] at h
  split at h
  · cases h
  · next line _ =>
    rw [Session.perform_bind] at h
    split at h
    · next jobs _ hjobs =>
      cases h
      exact isSound_of_jobsOf (congrArg Prod.fst hjobs)
    · cases h

end Configuration

/-- The jobs of a configuration are sound.  None of them fails for want of an extension, whatever
files there are by then, and whatever one that succeeds has found is delivered. -/
theorem Configuration.load_sound {env : Environment} {arguments : List Text} {c : Configuration}
    (h : (s.perform (load env arguments)).1 = .ok c) :
    ∀ job ∈ c.jobs, job.IsSound ∧ ∀ s : Session,
      (s.perform job.run).1 ≠ .error .noExtension ∧
        ((s.perform job.run).1 = .ok () →
          ∃ found, job.Finds s.files found ∧ job.Delivers found s (s.perform job.run).2) := by
  intro job hjob
  have hsound := isSound_of_load h job hjob
  exact ⟨hsound, fun s ↦ ⟨hsound.run_ne_noExtension s, Job.delivers_of_ok⟩⟩

/-- A page with one row, which is streamed. -/
theorem Configuration.load_sound_stream :
    let markup := "<tr class='memitem:x'><td class='memItemRight'>A = 1</td></tr>".toList
    let s : Session := { files := { working := [], entries := [
      (["pages".toList], .directory), (["pages".toList, "a.html".toList], .file (some markup))] } }
    let r : DocsRequest := { dir := "pages".toList, mode := .stream }
    (s.perform (load (fun _ ↦ none) ["docs".toList, "pages".toList, "--stream".toList])).1 =
        .ok { logFilter := CommandLine.defaultLogFilter, jobs := [.docs r] } ∧
      (s.perform (Job.docs r).run).1 = .ok () ∧
        ∃ found, (Job.docs r).Finds s.files found ∧
          (Job.docs r).Delivers found s (s.perform (Job.docs r).run).2 := by
  intro markup s r
  have hload : (s.perform (load (fun _ ↦ none)
      ["docs".toList, "pages".toList, "--stream".toList])).1 =
        .ok { logFilter := CommandLine.defaultLogFilter, jobs := [.docs r] } := by
    rfl
  have hlist : s.files.list r.dir = .ok [("a.html".toList, true)] := by decide
  have hnames : r.pageNames [("a.html".toList, true)] = ["a.html".toList] :=
    List.mergeSort_singleton _
  have hread : s.files.readText (Path.join r.dir "a.html".toList) = .ok markup := by
    decide
  have hfind : (r.find s.files).1 = .ok [("a.html".toList, Page.parse {} markup)] := by
    rw [DocsRequest.find, if_neg (by decide), hlist]
    dsimp only
    rw [hnames, DocsRequest.readPages_cons_of_ok hread, DocsRequest.readPages]
  have hdocument : (Job.docs r).document s.files =
      .ok (r.documentOf [("a.html".toList, Page.parse {} markup)]) := by
    rw [Job.document, hfind]
    rfl
  obtain ⟨s', hrun, -⟩ := Job.isDone_of_makes ⟨hdocument, fun _ ↦ rfl, by simp [Job.output, r]⟩
  have hsound := (load_sound hload (.docs r) (List.mem_singleton_self _)).2 s
  exact ⟨hload, congrArg Prod.fst hrun, hsound.2 (congrArg Prod.fst hrun)⟩

end Typings
