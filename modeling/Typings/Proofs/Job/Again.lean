import Typings.Proofs.Files.Again
import Typings.Proofs.Job.Effect

/-!
# Running jobs again

Where no job writes to what a job reads, a document can be made of the files as often as one likes:
it is the same after the jobs as before them (`document_of_grows`).  So a list of jobs that succeeded
succeeds again, and leaves the files as it left them the first time (`runIn_again`).
-/

namespace Typings

open FileTree (IsTree Grows SameBut Same)

variable {s : Session} {t t' u v : FileTree} {l d : Location} {name text : Text}
variable {texts : List Text} {W W' : Location → Prop}

/-! ## Pages in a tree that grew -/

namespace DocsRequest

variable {r : DocsRequest} {entries entries' : List (Text × Bool)} {names : List Text}
variable {pages : List (Text × Page)}

/-- The names of pages are up to the regular files there are. -/
theorem pageNames_congr (h : (entries.map Prod.fst).Nodup) (h' : (entries'.map Prod.fst).Nodup)
    (hmem : ∀ name, (name, true) ∈ entries ↔ (name, true) ∈ entries') :
    r.pageNames entries = r.pageNames entries' := by
  refine List.Perm.eq_of_pairwise (fun _ _ _ _ ↦ Text.le_antisymm) (sorted_pageNames r _)
    (sorted_pageNames r _) ?_
  rw [List.perm_ext_iff_of_nodup (nodup_pageNames h) (nodup_pageNames h')]
  intro name
  rw [mem_pageNames_iff, mem_pageNames_iff, hmem]

theorem readPages_of_readText
    (h : ∀ name ∈ names, ∀ markup, t.readText (Path.join r.dir name) = .ok markup →
      u.readText (Path.join r.dir name) = .ok markup)
    (hread : r.readPages t names = (pages, none)) : r.readPages u names = (pages, none) := by
  induction names generalizing pages with
  | nil => exact hread
  | cons name names ih =>
    rw [List.forall_mem_cons] at h
    cases hname : t.readText (Path.join r.dir name) with
    | error e =>
      rw [readPages_cons_of_error hname] at hread
      cases hread
    | ok markup =>
      rw [readPages_cons_of_ok hname] at hread
      obtain ⟨rfl, hrest⟩ := Prod.mk.inj hread
      rw [readPages_cons_of_ok (h.1 markup hname), ih h.2 (Prod.ext rfl hrest)]

theorem find_eq_ok_iff : (r.find t).1 = .ok pages ↔ r.pageExtension ≠ [] ∧
    ∃ entries, t.list r.dir = .ok entries ∧
      r.readPages t (r.pageNames entries) = (pages, none) := by
  constructor
  · intro h
    refine ⟨?_, find_eq_ok h⟩
    rintro hnil
    rw [find, if_pos (by simp [hnil])] at h
    cases h
  · rintro ⟨hextension, entries, hlist, hread⟩
    rw [find, if_neg (by simpa using hextension), hlist]
    simp only [hread]

/-- Where no file of the directory is among those that changed, the same pages are found. -/
theorem find_of_grows (ht : t.IsTree) (hu : u.IsTree) (h : Grows W t u)
    (hdir : ∀ d name, t.resolve r.dir = .ok d → ¬ W (d ++ [name]))
    (hfind : (r.find t).1 = .ok pages) : (r.find u).1 = .ok pages := by
  obtain ⟨hextension, entries, hlist, hread⟩ := find_eq_ok_iff.mp hfind
  obtain ⟨d, hd, hdirectory, -⟩ := FileTree.list_eq_ok_iff.mp hlist
  have hd' := FileTree.resolve_mono h.extends hd
  have hlist' := FileTree.list_eq_ok_iff.mpr ⟨d, hd', h.extends.directory d hdirectory, rfl⟩
  obtain ⟨-, hnodup, hmem⟩ := FileTree.list_spec ht.nodup hlist hd
  obtain ⟨-, hnodup', hmem'⟩ := FileTree.list_spec hu.nodup hlist' hd'
  have hnames := pageNames_congr (r := r) hnodup hnodup' fun name ↦ by
    simp only [hmem, hmem', h.lookup_file_iff (hdir d name hd)]
  refine find_eq_ok_iff.mpr ⟨hextension, _, hlist', ?_⟩
  rw [← hnames]
  refine readPages_of_readText (fun name hname markup hmarkup ↦ ?_) hread
  obtain ⟨text, htext⟩ := (hmem name).mp (mem_pageNames_iff.mp hname).1
  obtain ⟨-, hfile, hlength⟩ := ht.child htext
  refine FileTree.readText_of_grows h (fun l hl ↦ ?_) hmarkup
  -- the path of a page leads to its file in the directory
  have hjoin := FileTree.resolve_join hd hdirectory hfile hlength htext
    (FileTree.resolve_eq_ok_iff.mp hl).1
  rw [Except.ok.inj (hl.symm.trans hjoin)]
  exact hdir d name hd

end DocsRequest

namespace Job

variable {job : Job} {jobs : List Job}

/-! ## Sources and outputs -/

/-- The job writes to the file at `l`. -/
def Writes (job : Job) (t : FileTree) (l : Location) : Prop :=
  ∃ p, job.output = some p ∧ t.resolve p = .ok l

/-- The place is that of the listing of the job, or lies directly in the directory of its pages. -/
inductive Reads (t : FileTree) : Job → Location → Prop
  | listing {r : EnumsRequest} {l : Location} : t.resolve r.input = .ok l → Reads t (.enums r) l
  | page {r : DocsRequest} {d : Location} (name : Text) : t.resolve r.dir = .ok d →
      Reads t (.docs r) (d ++ [name])

theorem reads_enums_iff {r : EnumsRequest} {l : Location} :
    Reads t (.enums r) l ↔ t.resolve r.input = .ok l := by
  refine ⟨fun h ↦ ?_, .listing⟩
  cases h with
  | listing h => exact h

theorem reads_docs_iff {r : DocsRequest} {l : Location} :
    Reads t (.docs r) l ↔ l ≠ [] ∧ t.resolve r.dir = .ok l.dropLast := by
  constructor
  · rintro ⟨name, hd⟩
    exact ⟨by simp, by rwa [List.dropLast_concat]⟩
  · rintro ⟨hne, hd⟩
    rw [← List.dropLast_concat_getLast hne]
    exact .page _ hd

instance (t : FileTree) : ∀ (job : Job) (l : Location), Decidable (job.Reads t l)
  | .enums _, _ => decidable_of_iff _ reads_enums_iff.symm
  | .docs _, _ => decidable_of_iff _ reads_docs_iff.symm

instance (job : Job) (t : FileTree) (P : Location → Prop) [DecidablePred P] :
    Decidable (∀ l, job.Writes t l → P l) :=
  decidable_of_iff (∀ p ∈ job.output, ∀ l ∈ (t.resolve p).toOption, P l) <| by
    constructor
    · rintro h l ⟨p, hp, hl⟩
      exact h p hp l (by rw [hl]; rfl)
    · intro h p hp l hl
      refine h l ⟨p, hp, ?_⟩
      cases hresolve : t.resolve p with
      | error e => rw [hresolve] at hl; cases hl
      | ok l' => rw [hresolve] at hl; exact congrArg Except.ok (Option.some.inj hl)

theorem Writes.mono (h : FileTree.Extends t u) (hl : job.Writes t l) : job.Writes u l := by
  obtain ⟨p, hp, hresolve⟩ := hl
  exact ⟨p, hp, FileTree.resolve_mono h hresolve⟩

theorem Reads.mono (h : FileTree.Extends t u) (hl : job.Reads t l) : job.Reads u l := by
  cases hl with
  | listing hl => exact .listing (FileTree.resolve_mono h hl)
  | page name hd => exact .page name (FileTree.resolve_mono h hd)

/-- A job makes the same document where what it reads is the same. -/
theorem document_of_grows (ht : t.IsTree) (hu : u.IsTree) (h : Grows W t u)
    (hreads : ∀ l, job.Reads t l → ¬ W l) (htext : job.document t = .ok text) :
    job.document u = .ok text := by
  cases job with
  | enums r =>
    obtain ⟨listing, hfind, rfl⟩ := exists_of_map_eq_ok htext
    have hsource : ∀ source, t.readText r.input = .ok source → u.readText r.input = .ok source :=
      fun source ↦ FileTree.readText_of_grows h fun l hl ↦ hreads l (.listing hl)
    rw [document]
    rw [EnumsRequest.find] at hfind ⊢
    cases hread : t.readText r.input with
    | error e => rw [hread] at hfind; cases hfind
    | ok source =>
      rw [hread] at hfind
      obtain rfl := Except.ok.inj hfind
      rw [hsource source hread]
      rfl
  | docs r =>
    obtain ⟨pages, hfind, rfl⟩ := exists_of_map_eq_ok htext
    have hfind' := DocsRequest.find_of_grows ht hu h
      (fun d name hd ↦ hreads _ (.page name hd)) hfind
    rw [document, hfind']
    rfl

/-! ## One job -/

theorem Makes.isTree (h : job.Makes t text t') (ht : t.IsTree) : t'.IsTree := by
  cases hp : job.output with
  | none =>
    rw [h.unsaved hp]
    exact ht
  | some p =>
    have := ht.save p text
    rwa [h.saved p hp] at this

theorem Makes.grows (h : job.Makes t text t') : Grows (job.Writes t') t t' := by
  cases hp : job.output with
  | none =>
    rw [h.unsaved hp]
    exact .refl _ t
  | some p =>
    obtain ⟨l, hl⟩ := FileTree.save_ok (congrArg Prod.fst (h.saved p hp))
    rw [h.saved p hp] at hl
    refine hl.grows.mono ?_
    rintro _ rfl
    exact ⟨p, hp, hl.resolve⟩

/-- The tree `v` is what became of the files after a job, and `u` is the same but for its output and
the files in `W`.  If the job reads none of these it does the same again, and after that `u` is the
same but for the files in `W`. -/
theorem Makes.again (h : job.Makes t text t') (hv : Grows W t' v)
    (hu : SameBut (fun l ↦ job.Writes v l ∨ W l) v u) (ht : t.IsTree) (htree : u.IsTree)
    (hreads : ∀ l, job.Reads v l → ¬ (job.Writes v l ∨ W l)) :
    ∃ u', job.Makes u text u' ∧ SameBut W v u' := by
  have hgrows : Grows (fun l ↦ job.Writes v l ∨ W l) t v :=
    (h.grows.mono fun l hl ↦ .inl (hl.mono hv.extends)).trans (hv.mono fun l ↦ .inr)
  have hdocument : job.document u = .ok text :=
    document_of_grows ht htree (hgrows.trans hu.grows)
      (fun l hl ↦ hreads l (hl.mono hgrows.extends)) h.document
  cases hp : job.output with
  | none =>
    refine ⟨u, ⟨hdocument, fun _ ↦ rfl, by simp [hp]⟩, hu.mono ?_⟩
    rintro l (⟨p, hp', -⟩ | hl)
    · rw [hp] at hp'
      cases hp'
    · exact hl
  | some p =>
    have hWrites : ∀ l, job.Writes v l ∨ W l → v.resolve p = .ok l ∨ W l := by
      rintro l (⟨p', hp', hl⟩ | hl)
      · obtain rfl := Option.some.inj (hp.symm.trans hp')
        exact .inl hl
      · exact .inr hl
    obtain ⟨u', hsave, hsame⟩ := SameBut.save (h.saved p hp) hv (hu.mono hWrites)
    refine ⟨u', ⟨hdocument, by simp [hp], fun p' hp' ↦ ?_⟩, hsame⟩
    obtain rfl := Option.some.inj (hp.symm.trans hp')
    exact hsave

/-! ## Lists of jobs -/

/-- The jobs take the files `t` to `t'`, one after the other, and print the texts. -/
inductive MakesAll : List Job → FileTree → List Text → FileTree → Prop
  | nil {t : FileTree} : MakesAll [] t [] t
  | cons {job : Job} {jobs : List Job} {t t' t'' : FileTree} {text : Text} {texts : List Text} :
      job.Makes t text t' → MakesAll jobs t' texts t'' →
        MakesAll (job :: jobs) t (job.shown text :: texts) t''

theorem MakesAll.grows (h : MakesAll jobs t texts v) :
    Grows (fun l ↦ ∃ job ∈ jobs, job.Writes v l) t v := by
  induction h with
  | nil => exact .refl _ _
  | cons h _ ih =>
    refine Grows.trans (h.grows.mono fun l hl ↦ ?_) (ih.mono fun l hl ↦ ?_)
    · exact ⟨_, List.mem_cons_self, hl.mono ih.extends⟩
    · obtain ⟨job, hjob, hl⟩ := hl
      exact ⟨job, List.mem_cons_of_mem _ hjob, hl⟩

theorem MakesAll.isTree (h : MakesAll jobs t texts v) (ht : t.IsTree) : v.IsTree := by
  induction h with
  | nil => exact ht
  | cons h _ ih => exact ih (h.isTree ht)

/-- Jobs that took some files to `v` take `v` to itself, and print the same.  Until they are through,
the files that are still to be written may differ. -/
theorem MakesAll.again (h : MakesAll jobs t texts v) (ht : t.IsTree) (hu : u.IsTree)
    (hsame : SameBut (fun l ↦ ∃ job ∈ jobs, job.Writes v l) v u)
    (hapart : ∀ job ∈ jobs, ∀ job' ∈ jobs, ∀ l, job.Writes v l → ¬ job'.Reads v l) :
    ∃ u', MakesAll jobs u texts u' ∧ Same v u' := by
  induction h generalizing u with
  | nil => exact ⟨u, .nil, hsame.same (by simp)⟩
  | @cons job jobs t t' v text texts h hrest ih =>
    have hreads : ∀ l, job.Reads v l →
        ¬ (job.Writes v l ∨ ∃ job ∈ jobs, job.Writes v l) := by
      rintro l hl (hwrites | ⟨job', hjob', hwrites⟩)
      · exact hapart job List.mem_cons_self job List.mem_cons_self l hwrites hl
      · exact hapart job' (List.mem_cons_of_mem _ hjob') job List.mem_cons_self l hwrites hl
    have hsame : SameBut (fun l ↦ job.Writes v l ∨ ∃ job ∈ jobs, job.Writes v l) v u :=
      hsame.mono fun l ↦ by simp
    obtain ⟨u', hmakes, hsame'⟩ := h.again hrest.grows hsame ht hu hreads
    obtain ⟨u'', hall, hend⟩ := ih (h.isTree ht) (hmakes.isTree hu) hsame'
      fun job hjob job' hjob' ↦
        hapart job (List.mem_cons_of_mem _ hjob) job' (List.mem_cons_of_mem _ hjob')
    exact ⟨u'', .cons hmakes hall, hend⟩

/-- What a list of jobs that succeeds does is up to the files. -/
theorem makesAll_of_runIn (h : (runIn s jobs).1.2 = none) :
    ∃ texts, MakesAll jobs s.files texts (runIn s jobs).2.files := by
  induction jobs generalizing s with
  | nil => exact ⟨[], .nil⟩
  | cons job jobs ih =>
    cases hrun : (s.perform job.run).1 with
    | error failure =>
      rw [runIn_cons_of_error (Prod.ext hrun rfl)] at h
      cases h
    | ok =>
      obtain ⟨text, t', hmakes⟩ := makes_of_ok hrun
      obtain ⟨s', hrun', hdone⟩ := isDone_of_makes hmakes
      rw [runIn_cons_of_ok hrun'] at h ⊢
      obtain ⟨texts, hall⟩ := ih h
      rw [← hdone.files] at hmakes
      exact ⟨_, .cons hmakes hall⟩

theorem runIn_of_makesAll (h : MakesAll jobs s.files texts t) :
    (runIn s jobs).1 = (jobs.length, none) ∧ (runIn s jobs).2.files = t ∧
      (runIn s jobs).2.printed = s.printed ++ texts.flatten := by
  generalize hs : s.files = t₀ at h
  induction h generalizing s with
  | nil => exact ⟨rfl, hs, (List.append_nil _).symm⟩
  | cons hmakes _ ih =>
    rw [← hs] at hmakes
    obtain ⟨s', hrun, hdone⟩ := isDone_of_makes hmakes
    obtain ⟨hcount, hfiles, hprinted⟩ := ih hdone.files
    rw [runIn_cons_of_ok hrun]
    refine ⟨?_, hfiles, ?_⟩
    · rw [hcount]
      rfl
    · rw [hprinted, hdone.printed, List.flatten_cons, List.append_assoc]

/-- If no job writes to what a job reads, jobs that succeeded succeed again.  They leave all files and
directories as they have left them before, and print the same. -/
theorem runIn_again (ht : s.files.IsTree) (hdone : (runIn s jobs).1.2 = none)
    (hapart : ∀ job ∈ jobs, ∀ job' ∈ jobs, ∀ l, job.Writes (runIn s jobs).2.files l →
      ¬ job'.Reads (runIn s jobs).2.files l) :
    ∃ text, (runIn s jobs).2.printed = s.printed ++ text ∧
      ∀ s' : Session, s'.files = (runIn s jobs).2.files →
        (runIn s' jobs).1 = (jobs.length, none) ∧
          Same (runIn s jobs).2.files (runIn s' jobs).2.files ∧
            (runIn s' jobs).2.printed = s'.printed ++ text := by
  obtain ⟨texts, hall⟩ := makesAll_of_runIn hdone
  obtain ⟨-, -, hprinted⟩ := runIn_of_makesAll hall
  refine ⟨texts.flatten, hprinted, fun s' hs' ↦ ?_⟩
  have htree := hall.isTree ht
  obtain ⟨u, hagain, hsame⟩ := hall.again ht htree (.refl _ _) hapart
  rw [← hs'] at hagain
  obtain ⟨hcount, hfiles, hprinted'⟩ := runIn_of_makesAll hagain
  exact ⟨hcount, hfiles ▸ hsame, hprinted'⟩

/-- The second job writes over what the first has written, in a directory that the first has made. -/
theorem runIn_again_of_overwritten :
    let s : Session := { files := { working := [], entries := [
      (["a.lua".toList], .file (some "A = \x7b\n\x7d\n".toList)), (["pages".toList], .directory),
      (["pages".toList, "b.html".toList], .file (some "<p>".toList))] } }
    let jobs : List Job := [
      .enums { input := "a.lua".toList, output := some "out/x".toList },
      .docs { dir := "pages".toList, output := some "out/x".toList, format := .json },
      .enums { input := "a.lua".toList }]
    s.files.IsTree ∧ (runIn s jobs).1 = (3, none) ∧
      (runIn s jobs).2.printed = "declare enum A \x7b\n\x7d\n".toList ∧
      ∀ s' : Session, s'.files = (runIn s jobs).2.files →
        (runIn s' jobs).1 = (3, none) ∧ Same (runIn s jobs).2.files (runIn s' jobs).2.files ∧
          (runIn s' jobs).2.printed = s'.printed ++ "declare enum A \x7b\n\x7d\n".toList := by
  intro s jobs
  have ht : s.files.IsTree := by decide
  have hrun : (runIn s jobs).1 = (3, none) := by decide +kernel
  have hprinted : (runIn s jobs).2.printed = "declare enum A \x7b\n\x7d\n".toList := by
    decide +kernel
  have hapart : ∀ job ∈ jobs, ∀ job' ∈ jobs, ∀ l, job.Writes (runIn s jobs).2.files l →
      ¬ job'.Reads (runIn s jobs).2.files l := by
    decide +kernel
  obtain ⟨text, htext, hagain⟩ := runIn_again ht (congrArg Prod.snd hrun) hapart
  obtain rfl := hprinted.symm.trans htext
  exact ⟨ht, hrun, hprinted, hagain⟩

end Job

end Typings
