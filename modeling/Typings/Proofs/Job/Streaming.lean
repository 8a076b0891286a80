import Typings.Proofs.Block
import Typings.Proofs.Job.Docs

/-!
# Streaming a scan

A scan that streams its blocks to the log does to the files what one that does not would do, and
reports the same (`run_withMode`).  The blocks in the log are those of the records found, in order,
and make up the document of declarations.
-/

namespace Typings.DocsRequest

variable {r r' : DocsRequest} {s : Session} {t : FileTree} {pages : List (Text × Page)}

def withMode (r : DocsRequest) (mode : EmitMode) : DocsRequest := { r with mode }

/-- The request for the declarations as one document. -/
def concatenated (r : DocsRequest) : DocsRequest :=
  { r with mode := .concatenate, format := .declarations }

/-! ## Blocks in the log -/

/-- The log entry is a block: it tells where it came from, and nothing else. -/
def isBlock (e : Log.Event) : Bool := e.level == .info && e.fields.map Prod.fst == ["source"]

/-- The log entry for the block of a record. -/
def blockEvent (name : Text) (d : Declaration) : Log.Event :=
  ⟨.info, '\n' :: (Block.render d).dropLast, [("source", .text name)]⟩

/-- The document of the blocks in the log: each with the line feed at its end again, and with an
empty line between them. -/
def joined (blocks : List Log.Event) : Text :=
  List.intercalate ['\n'] (blocks.map fun e ↦ e.message.tail ++ ['\n'])

theorem streamed_stream (h : r.mode = .stream) (name : Text) (d : Declaration) :
    r.streamed name d = [blockEvent name d] := by
  rw [streamed, h, blockEvent, BlockLog.event_render, Block.render_eq, List.dropLast_concat]

theorem streamed_concatenate (h : r.mode = .concatenate) (name : Text) (d : Declaration) :
    r.streamed name d = [] := by
  rw [streamed, h]

/-- Of what the log says about a page, only what was streamed is blocks. -/
theorem filter_pageLog (r : DocsRequest) (x : Text × Page) :
    (r.pageLog x).filter isBlock =
      x.2.records.flatMap fun d ↦ (r.streamed x.1 d).filter isBlock := by
  have hrow : ∀ d, isBlock (Page.rowEvent d) = false := fun _ ↦ rfl
  have hpage : isBlock (pageEvent (Path.join r.dir x.1) x.2) = false := rfl
  have hend : (if x.2.endsInRow then [Page.unclosedEvent {}] else []).filter isBlock = [] := by
    split <;> rfl
  rw [pageLog, Page.log, List.filter_append, List.filter_append, hend, List.append_nil,
    List.filter_flatMap]
  simp [hrow, hpage]

/-- Of what the log says about a scan, the blocks are those of the pages that were read. -/
theorem filter_find (r : DocsRequest) (t : FileTree) :
    ∃ pages : List (Text × Page),
      (r.find t).2.filter isBlock =
        pages.flatMap (fun x ↦ x.2.records.flatMap fun d ↦ (r.streamed x.1 d).filter isBlock) ∧
      ∀ pages', (r.find t).1 = .ok pages' → pages' = pages := by
  have hempty : ∀ names, (r.emptyLog names).filter isBlock = [] := by
    intro names
    rw [emptyLog]
    split <;> rfl
  have hscan : ∀ pages, isBlock (r.scanEvent pages) = false := fun _ ↦ rfl
  rw [find]
  split
  · exact ⟨[], rfl, fun _ h ↦ by cases h⟩
  · split
    · exact ⟨[], rfl, fun _ h ↦ by cases h⟩
    · split
      · next pages _ _ =>
        refine ⟨pages, ?_, fun _ h ↦ by cases h⟩
        simp only [List.filter_append, hempty, List.nil_append, List.filter_flatMap,
          filter_pageLog]
      · next pages _ =>
        refine ⟨pages, ?_, fun _ h ↦ (Except.ok.inj h).symm⟩
        simp [hempty, hscan, List.filter_flatMap, filter_pageLog]

/-- A streaming scan logs the block of each record that it finds. -/
theorem filter_find_stream (hr : r.mode = .stream) (h : (r.find t).1 = .ok pages) :
    (r.find t).2.filter isBlock =
      pages.flatMap fun x ↦ x.2.records.map (blockEvent x.1) := by
  obtain ⟨pages', hlog, hpages⟩ := filter_find r t
  obtain rfl := hpages pages h
  have hblock : ∀ name d, [blockEvent name d].filter isBlock = [blockEvent name d] :=
    fun _ _ ↦ rfl
  simp only [hlog, streamed_stream hr, hblock, List.map_eq_flatMap]

theorem filter_find_concatenate (hr : r.mode = .concatenate) (t : FileTree) :
    (r.find t).2.filter isBlock = [] := by
  obtain ⟨pages, hlog, -⟩ := filter_find r t
  simp [hlog, streamed_concatenate hr]

/-! ## The blocks as a document -/

theorem joined_blocks (pages : List (Text × Page)) :
    joined (pages.flatMap fun x ↦ x.2.records.map (blockEvent x.1)) =
      Document.render (recordsOf pages) := by
  have hblock : ∀ name d, (blockEvent name d).message.tail ++ ['\n'] = Block.render d := by
    intro name d
    rw [blockEvent, List.tail_cons, Block.render_eq, List.dropLast_concat]
  rw [joined, Document.render_eq_intercalate, recordsOf, List.map_flatMap, List.map_flatMap,
    List.flatMap_map]
  simp only [List.map_map, Function.comp_def, hblock]

/-! ## Requests for the same pages -/

theorem readPages_of_dir (h : r.dir = r'.dir) (t : FileTree) (names : List Text) :
    r.readPages t names = r'.readPages t names := by
  induction names with
  | nil => rfl
  | cons name names ih => rw [readPages, readPages, ih, h]

/-- What is found depends on where the pages are and which are asked for. -/
theorem find_fst (r r' : DocsRequest) (t : FileTree) (hdir : r.dir = r'.dir)
    (hextension : r.extension = r'.extension) (hexclude : r.exclude = r'.exclude) :
    (r.find t).1 = (r'.find t).1 := by
  have hpage : r.pageExtension = r'.pageExtension := by
    rw [pageExtension, hextension, pageExtension]
  have hwants : r.wants = r'.wants := by
    funext name
    rw [wants, wants, hpage, hexclude]
  have hnames : r.pageNames = r'.pageNames := by
    funext entries
    rw [pageNames, pageNames, hwants]
  rw [find, find, hpage, hdir, hnames]
  split
  · rfl
  · split
    · rfl
    · rw [readPages_of_dir hdir]
      split <;> rfl

/-- The report but for the text. -/
def withoutText (report : DocsReport) : DocsReport := { report with rendered := none }

/-- Where a streaming scan succeeds, so does the one for a document, which is that of the same
records. -/
theorem run_concatenated {report : DocsReport}
    (h : (s.perform (r.withMode .stream).run).1 = .ok report)
    (hpages : (r.find s.files).1 = .ok pages) :
    ∃ report', (s.perform r.concatenated.run).1 = .ok report' ∧
      (r.output = none → report'.rendered = some (Document.render (recordsOf pages))) ∧
      ∀ p, r.output = some p → (s.perform r.concatenated.run).2.files.readText p =
        .ok (Document.render (recordsOf pages)) := by
  have hstream := find_fst (r.withMode .stream) r s.files rfl rfl rfl
  have hconcatenated := find_fst r.concatenated r s.files rfl rfl rfl
  have hunit : (s.perform (r.withMode .stream).run).1.map (fun _ ↦ ()) =
      (s.perform r.concatenated.run).1.map fun _ ↦ () := by
    rw [perform_run, perform_run]
    exact Session.map_respond_congr (hstream.trans hconcatenated.symm) fun _ ↦ rfl
  rw [h] at hunit
  cases h' : (s.perform r.concatenated.run).1 with
  | error failure =>
    rw [h'] at hunit
    cases hunit
  | ok report' =>
    rw [perform_run] at h' ⊢
    obtain ⟨pages', hpages', rfl, -, hsaved⟩ := Session.respond_eq_ok h'
    obtain rfl := Except.ok.inj (hpages.symm.trans (hconcatenated.symm.trans hpages'))
    have hdocument : r.concatenated.documentOf pages = Document.render (recordsOf pages) := rfl
    refine ⟨_, rfl, ?_, ?_⟩
    · intro hnone
      rw [reportOf, if_neg (by simp [concatenated, hnone]), hdocument]
    · intro p hp
      obtain ⟨l, hl⟩ := hsaved p hp
      rw [← hdocument]
      exact hl.readText

/-- The mode is no matter for the files, nor for what is reported but the text.  A streaming scan
logs each record as a block, tagged with the name of its page, and these blocks are the document
that the scan makes otherwise, which logs no block. -/
theorem run_withMode (r : DocsRequest) (s : Session) :
    (∀ mode mode',
      (s.perform (r.withMode mode).run).1.map withoutText =
        (s.perform (r.withMode mode').run).1.map withoutText ∧
      (s.perform (r.withMode mode).run).2.files = (s.perform (r.withMode mode').run).2.files) ∧
    (∃ events, (s.perform (r.withMode .concatenate).run).2.log = s.log ++ events ∧
      events.filter isBlock = []) ∧
    ∃ events, (s.perform (r.withMode .stream).run).2.log = s.log ++ events ∧
      (∀ pages, (r.find s.files).1 = .ok pages →
        (s.files.IsTree → ∃ d, r.IsScan s.files d pages) ∧
        events.filter isBlock = pages.flatMap fun x ↦ x.2.records.map (blockEvent x.1)) ∧
      ∀ report, (s.perform (r.withMode .stream).run).1 = .ok report →
        ∃ pages report', (r.find s.files).1 = .ok pages ∧
          report = (r.withMode .stream).reportOf pages ∧
          (s.perform r.concatenated.run).1 = .ok report' ∧
          (r.output = none → report'.rendered = some (joined (events.filter isBlock))) ∧
          ∀ p, r.output = some p → (s.perform r.concatenated.run).2.files.readText p =
            .ok (joined (events.filter isBlock)) := by
  have hfind : ∀ mode, ((r.withMode mode).find s.files).1 = (r.find s.files).1 := fun mode ↦
    find_fst (r.withMode mode) r s.files rfl rfl rfl
  refine ⟨?_, ?_, ((r.withMode .stream).find s.files).2, ?_, ?_, ?_⟩
  · intro mode mode'
    have hsame := (hfind mode).trans (hfind mode').symm
    rw [perform_run, perform_run]
    constructor
    · exact Session.map_respond_congr hsame fun _ ↦ rfl
    · exact Session.files_respond_congr hsame
  · have hnone : ((r.withMode .concatenate).find s.files).2.filter isBlock = [] :=
      filter_find_concatenate rfl s.files
    refine ⟨_, ?_, hnone⟩
    rw [perform_run, Session.log_respond]
  · rw [perform_run, Session.log_respond]
  · intro pages hpages
    exact ⟨fun ht ↦ isScan_of_find ht hpages, filter_find_stream rfl ((hfind _).trans hpages)⟩
  · intro report h
    obtain ⟨pages, hpages, hreport, -⟩ := Session.respond_eq_ok ((perform_run _ s) ▸ h)
    have hfound := (hfind .stream).symm.trans hpages
    obtain ⟨report', hrun, hdocument⟩ := run_concatenated h hfound
    rw [← joined_blocks, ← filter_find_stream rfl hpages] at hdocument
    exact ⟨pages, report', hfound, hreport, hrun, hdocument⟩

/-- The rows of a page are in the log, tagged with the name of the page as the directory has it. -/
theorem run_withMode_of_page :
    let markup := "<tr class='memitem:x'><td class='memItemRight'>A = 1</td></tr>".toList
    let s : Session := { files := { working := [], entries := [
      (["pages".toList], .directory), (["pages".toList, "a.HTML".toList], .file (some markup))] } }
    let r : DocsRequest := { dir := "pages".toList }
    ∃ report, (s.perform (r.withMode .stream).run).1 = .ok report ∧
      (s.perform (r.withMode .stream).run).2.log.filter isBlock =
        (Page.parse {} markup).records.map (blockEvent "a.HTML".toList) := by
  intro markup s r
  have hlist : s.files.list r.dir = .ok [("a.HTML".toList, true)] := by decide
  have hnames : r.pageNames [("a.HTML".toList, true)] = ["a.HTML".toList] :=
    List.mergeSort_singleton _
  have hread : s.files.readText (Path.join r.dir "a.HTML".toList) = .ok markup := by
    decide
  have hfind : (r.find s.files).1 = .ok [("a.HTML".toList, Page.parse {} markup)] := by
    rw [find, if_neg (by decide), hlist]
    dsimp only
    rw [hnames, readPages_cons_of_ok hread, readPages]
  have hrun := Session.respond_of_ok s (r.withMode .stream).documentOf (r.withMode .stream).reportOf
    ((find_fst (r.withMode .stream) r s.files rfl rfl rfl).trans hfind)
  rw [← show (r.withMode .stream).output = none from rfl, ← perform_run] at hrun
  obtain ⟨events, hlog, hscan, hreport⟩ := (run_withMode r s).2.2
  obtain ⟨pages, -, hpages, -⟩ := hreport _ hrun
  obtain rfl := Except.ok.inj (hpages.symm.trans hfind)
  refine ⟨_, hrun, ?_⟩
  rw [hlog, List.filter_append, (hscan _ hpages).2]
  simp [s]

end Typings.DocsRequest
