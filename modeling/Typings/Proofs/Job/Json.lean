import Typings.Proofs.Declaration.Json
import Typings.Proofs.Job.Docs
import Typings.Proofs.Job.Enums

/-!
# Documents in JSON

What is written in JSON is read as what it was written for, fields that were left out included, and
a document that a request makes in JSON holds what its report counts (`json_lossless`).
-/

namespace Typings

open Json

/-! ## Modes and reports -/

theorem EmitMode.reads (m : EmitMode) : Reads EmitMode.reader m.writer m :=
  Reads.choice (by cases m <;> decide)

namespace EnumsReport

/-- The counts of a report are machine numbers. -/
structure IsBounded (r : EnumsReport) : Prop where
  recordCount : r.recordCount < Number.bound
  memberCount : r.memberCount < Number.bound
  skippedCount : r.skippedCount < Number.bound

theorem reads {r : EnumsReport} (h : r.IsBounded) : Reads EnumsReport.reader r.writer r := by
  have hcounts : Fills shape.fields shape.start
      [("record_count".toList, .count r.recordCount), ("member_count".toList, .count r.memberCount),
        ("skipped_count".toList, .count r.skippedCount)]
      { recordCount := some r.recordCount
        memberCount := some r.memberCount
        skippedCount := some r.skippedCount } :=
    .cons rfl rfl (.at (.count h.recordCount) _) (.cons rfl rfl (.at (.count h.memberCount) _)
      (.cons rfl rfl (.at (.count h.skippedCount) _) .nil))
  obtain ⟨recordCount, memberCount, skippedCount, output, rendered⟩ := r
  exact Reads.object shape
    ((hcounts.append (.optional rfl rfl output)).append
      (.optional rfl (by cases output <;> rfl) rendered))
    (by cases output <;> cases rendered <;> rfl)

end EnumsReport

namespace DocsReport

/-- The counts of a report are machine numbers. -/
structure IsBounded (r : DocsReport) : Prop where
  pagesScanned : r.pagesScanned < Number.bound
  rowsSeen : r.rowsSeen < Number.bound
  recordCount : r.recordCount < Number.bound
  memberCount : r.memberCount < Number.bound

theorem reads {r : DocsReport} (h : r.IsBounded) : Reads DocsReport.reader r.writer r := by
  have hcounts : Fills shape.fields shape.start
      [("pages_scanned".toList, .count r.pagesScanned), ("rows_seen".toList, .count r.rowsSeen),
        ("record_count".toList, .count r.recordCount),
        ("member_count".toList, .count r.memberCount)]
      { pagesScanned := some r.pagesScanned
        rowsSeen := some r.rowsSeen
        recordCount := some r.recordCount
        memberCount := some r.memberCount } :=
    .cons rfl rfl (.at (.count h.pagesScanned) _) (.cons rfl rfl (.at (.count h.rowsSeen) _)
      (.cons rfl rfl (.at (.count h.recordCount) _)
        (.cons rfl rfl (.at (.count h.memberCount) _) .nil)))
  obtain ⟨pagesScanned, rowsSeen, recordCount, memberCount, output, rendered⟩ := r
  exact Reads.object shape
    ((hcounts.append (.optional rfl rfl output)).append
      (.optional rfl (by cases output <;> rfl) rendered))
    (by cases output <;> cases rendered <;> rfl)

end DocsReport

/-! ## Documents of requests -/

/-- The document that a request leaves is in its output, or handed back if there is none. -/
structure Job.IsDocument (output : Option Path) (rendered : Option Text) (files : FileTree)
    (document : Text) : Prop where
  handedBack : output = none → rendered = some document
  written : ∀ p, output = some p → files.readText p = .ok document

/-- What is read from a text in JSON are this many declarations with this many members. -/
def Format.ReadsAs (document : Text) (records members : Nat) : Prop :=
  ∃ ds, Json.read (Reader.list Declaration.reader) document = .ok ds ∧ ds.length = records ∧
    Declaration.totalMembers ds = members

theorem EnumsRequest.document_run {r : EnumsRequest} {s : Session} {report : EnumsReport}
    (hr : r.format = .json) (h : (s.perform r.run).1 = .ok report) :
    ∃ document, Job.IsDocument r.output report.rendered (s.perform r.run).2.files document ∧
      Format.ReadsAs document report.recordCount report.memberCount := by
  rw [perform_run] at h ⊢
  obtain ⟨listing, -, rfl, -, hsaved⟩ := Session.respond_eq_ok h
  refine ⟨r.documentOf listing, ⟨?_, ?_⟩, listing.records, ?_, rfl, rfl⟩
  · intro hp
    simp [reportOf, hp]
  · intro p hp
    obtain ⟨l, hl⟩ := hsaved p hp
    exact hl.readText
  · rw [documentOf, hr]
    exact Format.read_render_json r.banner listing.records

theorem DocsRequest.document_run {r : DocsRequest} {s : Session} {report : DocsReport}
    (hr : r.format = .json) (hmode : r.output.isSome ∨ r.mode = .concatenate)
    (h : (s.perform r.run).1 = .ok report) :
    ∃ document, Job.IsDocument r.output report.rendered (s.perform r.run).2.files document ∧
      Format.ReadsAs document report.recordCount report.memberCount := by
  rw [perform_run] at h ⊢
  obtain ⟨pages, -, rfl, -, hsaved⟩ := Session.respond_eq_ok h
  refine ⟨r.documentOf pages, ⟨?_, ?_⟩, recordsOf pages, ?_, rfl, rfl⟩
  · intro hp
    have hconcatenate : r.mode = .concatenate := by simpa [hp] using hmode
    simp [reportOf, hp, hconcatenate]
  · intro p hp
    obtain ⟨l, hl⟩ := hsaved p hp
    exact hl.readText
  · rw [documentOf, hr]
    exact Format.read_render_json none (recordsOf pages)

/-- The same declarations stand in a document in either format, JSON is read as what it was written
for, and the document that a request makes in JSON holds what its report counts. -/
theorem json_lossless :
    (∀ banner ds,
      Json.read (Reader.list Declaration.reader) (Format.json.render banner ds) = .ok ds ∧
      (Json.read (Reader.list Declaration.reader) (Format.json.render banner ds)).map
        Document.render = .ok (Format.declarations.render none ds)) ∧
    (∀ l : Layout,
      (∀ c, Json.read Constant.reader (write l (Constant.writer c)) = .ok c) ∧
      (∀ d, Json.read Declaration.reader (write l (Declaration.writer d)) = .ok d) ∧
      (∀ x : SkippedLine, x.number < Number.bound →
        Json.read SkippedLine.reader (write l x.writer) = .ok x) ∧
      (∀ m, Json.read EmitMode.reader (write l (EmitMode.writer m)) = .ok m) ∧
      (∀ r : EnumsReport, r.IsBounded → Json.read EnumsReport.reader (write l r.writer) = .ok r) ∧
      ∀ r : DocsReport, r.IsBounded → Json.read DocsReport.reader (write l r.writer) = .ok r) ∧
    (∀ (r : EnumsRequest) (s : Session) (report : EnumsReport), r.format = .json →
      (s.perform r.run).1 = .ok report →
        ∃ document, Job.IsDocument r.output report.rendered (s.perform r.run).2.files document ∧
          Format.ReadsAs document report.recordCount report.memberCount) ∧
    ∀ (r : DocsRequest) (s : Session) (report : DocsReport), r.format = .json →
      (r.output.isSome ∨ r.mode = .concatenate) → (s.perform r.run).1 = .ok report →
        ∃ document, Job.IsDocument r.output report.rendered (s.perform r.run).2.files document ∧
          Format.ReadsAs document report.recordCount report.memberCount := by
  refine ⟨?_, ?_, ?_, ?_⟩
  · intro banner ds
    rw [Format.read_render_json]
    exact ⟨rfl, rfl⟩
  · intro l
    exact ⟨fun c ↦ c.reads.read_write l, fun d ↦ d.reads.read_write l,
      fun x h ↦ (x.reads h).read_write l, fun m ↦ m.reads.read_write l,
      fun r h ↦ (EnumsReport.reads h).read_write l, fun r h ↦ (DocsReport.reads h).read_write l⟩
  · intro r s report hr h
    exact EnumsRequest.document_run hr h
  · intro r s report hr hmode h
    exact DocsRequest.document_run hr hmode h

/-- Absent fields are read back as absent, and a document is handed back. -/
theorem json_lossless_of_handedBack :
    let x : SkippedLine := ⟨3, "?\n\"".toList⟩
    let found : EnumsReport := ⟨1, 2, 3, none, some []⟩
    let scanned : DocsReport := ⟨0, 0, 0, 0, some "é".toList, none⟩
    let source := "E = \x7b\n  A = 1,\n\x7d\n".toList
    let s : Session := { files := { working := [], entries := [
      (["a.lua".toList], .file (some source)), (["pages".toList], .directory)] } }
    let enums : EnumsRequest := { input := "a.lua".toList, format := .json }
    let docs : DocsRequest := { dir := "pages".toList, format := .json }
    Json.read SkippedLine.reader (write .compact x.writer) = .ok x ∧
    Json.read EnumsReport.reader (write .indented found.writer) = .ok found ∧
    Json.read DocsReport.reader (write .compact scanned.writer) = .ok scanned ∧
    (∃ report document, (s.perform enums.run).1 = .ok report ∧
      report.rendered = some document ∧
      Format.ReadsAs document report.recordCount report.memberCount) ∧
    ∃ report document, (s.perform docs.run).1 = .ok report ∧ report.rendered = some document ∧
      Format.ReadsAs document report.recordCount report.memberCount := by
  intro x found scanned source s enums docs
  obtain ⟨-, hvalues, henums, hdocs⟩ := json_lossless
  have hread : s.files.readText enums.input = .ok source := by decide
  have hlisting : (enums.find s.files).1 = .ok (Listing.parse {} source) := by
    rw [EnumsRequest.find, hread]
  have hlist : s.files.list docs.dir = .ok [] := by decide
  have hpages : (docs.find s.files).1 = .ok [] := by
    rw [DocsRequest.find, if_neg (by decide), hlist]
    dsimp only
    rw [show docs.pageNames [] = [] from List.mergeSort_nil, DocsRequest.readPages]
  have hfound := Session.respond_of_ok s enums.documentOf enums.reportOf hlisting
  have hscanned := Session.respond_of_ok s docs.documentOf docs.reportOf hpages
  rw [← show enums.output = none from rfl, ← EnumsRequest.perform_run] at hfound
  rw [← show docs.output = none from rfl, ← DocsRequest.perform_run] at hscanned
  obtain ⟨listing, hhanded, hcount⟩ := henums enums s _ rfl hfound
  obtain ⟨pages, hhanded', hcount'⟩ := hdocs docs s _ rfl (.inr rfl) hscanned
  refine ⟨(hvalues .compact).2.2.1 x (by decide), ?_, ?_, ?_, ?_⟩
  · exact (hvalues .indented).2.2.2.2.1 found ⟨by decide, by decide, by decide⟩
  · exact (hvalues .compact).2.2.2.2.2 scanned ⟨by decide, by decide, by decide, by decide⟩
  · exact ⟨_, listing, hfound, hhanded.handedBack rfl, hcount⟩
  · exact ⟨_, pages, hscanned, hhanded'.handedBack rfl, hcount'⟩

end Typings
