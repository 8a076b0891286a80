import Typings.Proofs.Job.Pages
import Typings.Proofs.Job.Session

/-!
# Scanning a directory

A request for reference pages amounts to what it finds in the file tree and a document made of that
(`perform_run`).  So its report is about the pages of its directory, each read alone, in the order
of the bytes of their names, whatever the order of the directory (`run_pages`).
-/

namespace Typings.DocsRequest

variable {r : DocsRequest} {s : Session} {t t' : FileTree}

theorem perform_scanPages (r : DocsRequest) (s : Session) (names : List Text) :
    s.perform (r.scanPages names) =
      ((match (r.readPages s.files names).2 with
        | none => .ok ((r.readPages s.files names).1.map Prod.snd)
        | some failure => .error failure),
        s.logs ((r.readPages s.files names).1.flatMap r.pageLog)) := by
  induction names generalizing s with
  | nil =>
    rw [readPages, List.flatMap_nil, Session.logs_nil]
    rfl
  | cons name names ih =>
    rw [scanPages, Session.perform_bind, Session.perform_load]
    cases h : s.files.readText (Path.join r.dir name) with
    | error e =>
      rw [readPages_cons_of_error h, List.flatMap_nil, Session.logs_nil]
      rfl
    | ok markup =>
      dsimp only [Except.mapError]
      rw [Session.perform_liftM_bind, Session.run_logAll, Session.perform_liftM_bind,
        Session.run_log, Session.perform_bind, ih, readPages_cons_of_ok h]
      simp only [Session.files_logs, Session.logs_logs]
      rcases r.readPages s.files names with ⟨pages, _ | failure⟩ <;> simp [pageLog]

/-! ## What becomes of the pages -/

/-- The records of pages, in order. -/
def recordsOf (pages : List (Text × Page)) : List Declaration :=
  (pages.map Prod.snd).flatMap Page.records

/-- The document made of pages. -/
def documentOf (r : DocsRequest) (pages : List (Text × Page)) : Text :=
  r.format.render none (recordsOf pages)

/-- The report on pages. -/
def reportOf (r : DocsRequest) (pages : List (Text × Page)) : DocsReport where
  pagesScanned := pages.length
  rowsSeen := pages.foldr (fun x n ↦ x.2.rowsSeen + n) 0
  recordCount := (recordsOf pages).length
  memberCount := Declaration.totalMembers (recordsOf pages)
  output := r.output
  rendered := if r.output.isSome ∨ r.mode = .stream then none else some (r.documentOf pages)

theorem perform_run (r : DocsRequest) (s : Session) :
    s.perform r.run = s.respond (r.find s.files) r.output r.documentOf r.reportOf := by
  rw [run, find]
  split
  · simp [Session.respond]
  · rw [Session.perform_liftM_bind, Session.run_list]
    cases s.files.list r.dir with
    | error e => simp [Session.respond]
    | ok entries =>
      dsimp only
      rw [pure_bind, Session.perform_log_if, Session.perform_bind, perform_scanPages]
      simp only [Session.files_logs, Session.logs_logs]
      rcases r.readPages s.files (r.pageNames entries) with ⟨pages, _ | failure⟩
      · dsimp only
        rw [Session.perform_liftM_bind, Session.run_log, Session.logs_logs]
        refine (Session.perform_deliver _ _ _ _).trans ?_
        simp only [List.foldr_map, List.length_map]
        rfl
      · rfl

theorem printed_run (r : DocsRequest) (s : Session) :
    (s.perform r.run).2.printed = s.printed := by
  rw [perform_run, Session.printed_respond]

/-- The pages asked for are read in the order of the bytes of their names, each alone, and the first
one that cannot be read is what the request fails for.  The order of the directory is no matter. -/
theorem run_pages (ht : s.files.IsTree) (r : DocsRequest) :
    (∀ files : FileTree, files.entries.Perm s.files.entries → files.working = s.files.working →
      ((s.withFiles files).perform r.run).1 = (s.perform r.run).1 ∧
        Session.Same ((s.withFiles files).perform r.run).2 (s.perform r.run).2) ∧
    (∀ report, (s.perform r.run).1 = .ok report →
      ∃ d pages, r.IsScan s.files d pages ∧ report = r.reportOf pages ∧
        ∀ p, r.output = some p →
          (s.perform r.run).2.files.readText p = .ok (r.documentOf pages)) ∧
    (r.pageExtension = [] → (s.perform r.run).1 = .error .noExtension) ∧
    (r.pageExtension ≠ [] → ∀ d name e, s.files.resolve r.dir = .ok d → r.IsPage s.files d name →
      s.files.readText (Path.join r.dir name) = .error e →
        ∃ name e, r.IsUnread s.files d name e ∧
          (s.perform r.run).1 = .error (.load (Path.join r.dir name) e)) := by
  refine ⟨?_, ?_, ?_, ?_⟩
  · intro files hp hw
    rw [perform_run, perform_run]
    have hsame : Session.Same (s.withFiles files) s :=
      ⟨FileTree.same_of_perm ht.nodup hp hw, rfl, rfl⟩
    rw [Session.files_withFiles, find_of_perm ht.nodup hp hw r]
    exact Session.respond_congr hsame _ _ _ _
  · intro report h
    rw [perform_run] at h ⊢
    obtain ⟨pages, hfind, rfl, -, hsaved⟩ := Session.respond_eq_ok h
    obtain ⟨d, hscan⟩ := isScan_of_find ht hfind
    refine ⟨d, pages, hscan, rfl, ?_⟩
    intro p hp
    obtain ⟨l, hl⟩ := hsaved p hp
    exact hl.readText
  · intro hextension
    rw [perform_run]
    apply Session.respond_of_error
    rw [find, if_pos (by simp [hextension])]
  · intro hextension d name e hd hpage he
    obtain ⟨name', e', hunread, hfind⟩ := isUnread_of_find ht hextension hd hpage he
    refine ⟨name', e', hunread, ?_⟩
    rw [perform_run]
    exact Session.respond_of_error hfind

/-- Upper case comes first, and the extension may be in either case. -/
theorem run_pages_of_two :
    let s : Session := { files := { working := [], entries := [
      (["pages".toList], .directory),
      (["pages".toList, "b.html".toList], .file (some "<p>".toList)),
      (["pages".toList, "A.HTML".toList], .file (some "<tr class='memitem:x'></tr>".toList))] } }
    let r : DocsRequest := { dir := "pages".toList }
    s.files.IsTree ∧ ∃ d pages, r.IsScan s.files d pages ∧ pages.length = 2 ∧
      (s.perform r.run).1 = .ok (r.reportOf pages) := by
  intro s r
  have ht : s.files.IsTree := by decide
  have hlist : s.files.list r.dir = .ok [("b.html".toList, true), ("A.HTML".toList, true)] := by
    decide
  have hnames : r.pageNames [("b.html".toList, true), ("A.HTML".toList, true)] =
      ["A.HTML".toList, "b.html".toList] := by
    rw [pageNames_of_perm (List.Perm.swap _ _ _), pageNames, List.mergeSort_of_pairwise (by decide)]
    decide
  have hfirst : s.files.readText (Path.join r.dir "A.HTML".toList) =
      .ok "<tr class='memitem:x'></tr>".toList := by
    decide
  have hlast : s.files.readText (Path.join r.dir "b.html".toList) = .ok "<p>".toList := by
    decide
  have hfind : (r.find s.files).1 =
      .ok [("A.HTML".toList, Page.parse {} "<tr class='memitem:x'></tr>".toList),
        ("b.html".toList, Page.parse {} "<p>".toList)] := by
    rw [find, if_neg (by decide), hlist]
    dsimp only
    rw [hnames, readPages_cons_of_ok hfirst, readPages_cons_of_ok hlast, readPages]
  have hrun := Session.respond_of_ok s r.documentOf r.reportOf hfind
  rw [← show r.output = none from rfl, ← perform_run] at hrun
  obtain ⟨d, pages, hscan, hreport, -⟩ := (run_pages ht r).2.1 _ hrun
  refine ⟨ht, d, pages, hscan, ?_, hreport ▸ hrun⟩
  exact (congrArg DocsReport.pagesScanned hreport).symm

/-- A request without an extension is refused before any page is read, although there may be names
with nothing behind their dot. -/
theorem run_noExtension_of_unread :
    let s : Session := { files := { working := [], entries := [
      (["pages".toList], .directory), (["pages".toList, "a.".toList], .file none)] } }
    let r : DocsRequest := { dir := "pages".toList, extension := ".".toList }
    s.files.IsTree ∧ s.files.resolve r.dir = .ok ["pages".toList] ∧
      r.IsPage s.files ["pages".toList] "a.".toList ∧
        s.files.readText (Path.join r.dir "a.".toList) = .error .notText ∧
          ∀ p e, (s.perform r.run).1 ≠ .error (.load p e) := by
  intro s r
  have ht : s.files.IsTree := by decide
  have hpage : r.IsPage s.files ["pages".toList] "a.".toList :=
    ⟨⟨none, by decide⟩, ⟨"a".toList, [], by decide⟩, by decide⟩
  have hfind : (r.find s.files).1 = .error .noExtension := rfl
  refine ⟨ht, by decide, hpage, by decide, ?_⟩
  intro p e
  rw [perform_run, Session.respond_of_error hfind]
  exact nofun

end Typings.DocsRequest
