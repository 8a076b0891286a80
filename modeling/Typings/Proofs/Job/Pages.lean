import Typings.Job.Docs
import Typings.Proofs.Files.Directory
import Typings.Proofs.Text.Bytes

/-!
# The pages in a directory

A scan is of the pages that a file tree has in a directory: those files that the request asks for
(`IsPage`), each once and in the order of the bytes of their names (`IsScan`).  Its first page that
cannot be read ends it (`find_of_isUnreadable`), and the order in which the directory is listed has
no bearing on it (`find_of_perm`).
-/

namespace Typings.DocsRequest

variable {r : DocsRequest} {t t' : FileTree} {d : Location} {name : Text} {names : List Text}
variable {entries entries' : List (Text × Bool)} {pages : List (Text × Page)} {p : Path}
variable {failure : Job.Failure}

/-! ## Pages asked for -/

/-- The directory has a regular file of this name, and the request asks for it: what follows
its last dot, which is not in front, is the extension asked for. -/
structure IsPage (r : DocsRequest) (t : FileTree) (d : Location) (name : Text) : Prop where
  file : ∃ text, t.lookup (d ++ [name]) = some (.file text)
  extension : ∃ stem e, stem ≠ [] ∧ '.' ∉ e ∧ name = stem ++ '.' :: e ∧
    Text.toLower e = Text.toLower r.pageExtension
  notExcluded : r.exclude ≠ some name

theorem wants_eq_true_iff : r.wants name = true ↔
    (∃ e, Path.extension? name = some e ∧ Text.toLower e = Text.toLower r.pageExtension) ∧
      r.exclude ≠ some name := by
  rw [wants, Bool.and_eq_true, bne_iff_ne]
  refine and_congr_left' ?_
  cases Path.extension? name with
  | none => simp
  | some e => simp [Text.eqIgnoringCase]

theorem mem_pageNames_iff : name ∈ r.pageNames entries ↔
    (name, true) ∈ entries ∧ r.wants name = true := by
  rw [pageNames, (List.mergeSort_perm _ _).mem_iff]
  simp

theorem sorted_pageNames (r : DocsRequest) (entries : List (Text × Bool)) :
    (r.pageNames entries).Pairwise (Text.le · · = true) := by
  rw [pageNames]
  refine List.pairwise_mergeSort ?_ ?_ _
  · exact fun _ _ _ ↦ Text.le_trans
  · intro s t
    rw [Bool.or_eq_true]
    exact Text.le_total s t

theorem nodup_pageNames (h : (entries.map Prod.fst).Nodup) : (r.pageNames entries).Nodup := by
  rw [pageNames, (List.mergeSort_perm _ _).nodup_iff]
  exact h.sublist (List.filter_sublist.map Prod.fst)

/-- The names of pages ascend, each of them there once. -/
theorem pairwise_pageNames (h : (entries.map Prod.fst).Nodup) :
    (r.pageNames entries).Pairwise (Text.utf8 · < Text.utf8 ·) :=
  (sorted_pageNames r entries).imp₂ (fun _ _ ↦ Text.utf8_lt_of_le) (nodup_pageNames h)

theorem pageNames_of_perm (h : entries.Perm entries') :
    r.pageNames entries = r.pageNames entries' := by
  refine List.Perm.eq_of_pairwise (fun _ _ _ _ ↦ Text.le_antisymm) (sorted_pageNames r _)
    (sorted_pageNames r _) ?_
  have hwanted := (h.filter fun x ↦ x.2 && r.wants x.1).map Prod.fst
  exact (List.mergeSort_perm _ _).trans (hwanted.trans (List.mergeSort_perm _ _).symm)

/-! ## Reading pages -/

/-- Reads pages in order, up to the first that cannot be read. -/
def readPages (r : DocsRequest) (t : FileTree) :
    List Text → List (Text × Page) × Option Job.Failure
  | [] => ([], none)
  | name :: names =>
    match t.readText (Path.join r.dir name) with
    | .error e => ([], some (.load (Path.join r.dir name) e))
    | .ok markup =>
      let (pages, failure) := r.readPages t names
      ((name, Page.parse {} markup) :: pages, failure)

theorem readPages_cons_of_error {e : FileError}
    (h : t.readText (Path.join r.dir name) = .error e) (names : List Text) :
    r.readPages t (name :: names) = ([], some (.load (Path.join r.dir name) e)) := by
  rw [readPages, h]

theorem readPages_cons_of_ok {markup : Text}
    (h : t.readText (Path.join r.dir name) = .ok markup) (names : List Text) :
    r.readPages t (name :: names) =
      ((name, Page.parse {} markup) :: (r.readPages t names).1, (r.readPages t names).2) := by
  rw [readPages, h]

/-- What was read are the pages in front, each from its own file alone. -/
theorem readPages_spec (r : DocsRequest) (t : FileTree) (names : List Text) :
    (r.readPages t names).1.map Prod.fst <+: names ∧
      ∀ x ∈ (r.readPages t names).1, ∃ markup,
        t.readText (Path.join r.dir x.1) = .ok markup ∧ x.2 = Page.parse {} markup := by
  induction names with
  | nil => exact ⟨List.nil_prefix, nofun⟩
  | cons name names ih =>
    cases h : t.readText (Path.join r.dir name) with
    | error e =>
      rw [readPages_cons_of_error h]
      exact ⟨List.nil_prefix, nofun⟩
    | ok markup =>
      rw [readPages_cons_of_ok h]
      refine ⟨List.cons_prefix_cons.mpr ⟨rfl, ih.1⟩, ?_⟩
      rintro x (_ | ⟨_, hx⟩)
      · exact ⟨markup, h, rfl⟩
      · exact ih.2 x hx

theorem map_fst_of_readPages (h : (r.readPages t names).2 = none) :
    (r.readPages t names).1.map Prod.fst = names := by
  induction names with
  | nil => rfl
  | cons name names ih =>
    cases hname : t.readText (Path.join r.dir name) with
    | error e =>
      rw [readPages_cons_of_error hname] at h
      cases h
    | ok markup =>
      rw [readPages_cons_of_ok hname] at h ⊢
      exact congrArg (name :: ·) (ih h)

/-- The failure is that of the page behind those that were read. -/
theorem readPages_eq_some (h : (r.readPages t names).2 = some failure) :
    ∃ name e rest, names = (r.readPages t names).1.map Prod.fst ++ name :: rest ∧
      t.readText (Path.join r.dir name) = .error e ∧
        failure = .load (Path.join r.dir name) e := by
  induction names with
  | nil => cases h
  | cons name names ih =>
    cases hname : t.readText (Path.join r.dir name) with
    | error e =>
      rw [readPages_cons_of_error hname] at h ⊢
      cases h
      exact ⟨name, e, names, rfl, hname, rfl⟩
    | ok markup =>
      rw [readPages_cons_of_ok hname] at h ⊢
      obtain ⟨name', e, rest, hnames, herror, hfailure⟩ := ih h
      exact ⟨name', e, rest, congrArg (name :: ·) hnames, herror, hfailure⟩

theorem readPages_congr (h : FileTree.Same t t') (r : DocsRequest) (names : List Text) :
    r.readPages t names = r.readPages t' names := by
  induction names with
  | nil => rfl
  | cons name names ih => simp only [readPages, FileTree.readText_congr h, ih]

/-! ## Scans -/

/-- The log entries for a page that was read. -/
def pageLog (r : DocsRequest) (x : Text × Page) : List Log.Event :=
  Page.log {} (r.streamed x.1) x.2 ++ [pageEvent (Path.join r.dir x.1) x.2]

/-- The log entries for a directory without pages. -/
def emptyLog (r : DocsRequest) (names : List Text) : List Log.Event :=
  if names.isEmpty then [r.nothingEvent] else []

/-- The pages that a request finds in a file tree, or why it fails, and what the log says. -/
def find (r : DocsRequest) (t : FileTree) :
    Except Job.Failure (List (Text × Page)) × List Log.Event :=
  if r.pageExtension.isEmpty then (.error .noExtension, [])
  else
    match t.list r.dir with
    | .error e => (.error (.load r.dir e), [])
    | .ok entries =>
      match r.readPages t (r.pageNames entries) with
      | (pages, some failure) =>
        (.error failure, r.emptyLog (r.pageNames entries) ++ pages.flatMap r.pageLog)
      | (pages, none) =>
        (.ok pages, r.emptyLog (r.pageNames entries) ++ pages.flatMap r.pageLog ++
          [r.scanEvent (pages.map Prod.snd)])

/-- The pages are those that the request asks for in the directory `d`, in order, and each is what
its own file holds. -/
structure IsScan (r : DocsRequest) (t : FileTree) (d : Location) (pages : List (Text × Page)) :
    Prop where
  directory : t.resolve r.dir = .ok d
  ascending : (pages.map Prod.fst).Pairwise (Text.utf8 · < Text.utf8 ·)
  mem_iff : ∀ name, name ∈ pages.map Prod.fst ↔ r.IsPage t d name
  text : ∀ x ∈ pages, ∃ markup,
    t.lookup (d ++ [x.1]) = some (.file (some markup)) ∧ x.2 = Page.parse {} markup

/-- The page cannot be read, and is the first one. -/
structure IsUnread (r : DocsRequest) (t : FileTree) (d : Location) (name : Text) (e : FileError) :
    Prop where
  isPage : r.IsPage t d name
  error : t.readText (Path.join r.dir name) = .error e
  first : ∀ name', r.IsPage t d name' → Text.utf8 name' < Text.utf8 name →
    ∃ markup, t.readText (Path.join r.dir name') = .ok markup

theorem mem_pageNames_iff_isPage (ht : t.IsTree) (hlist : t.list r.dir = .ok entries)
    (hd : t.resolve r.dir = .ok d) : name ∈ r.pageNames entries ↔ r.IsPage t d name := by
  rw [mem_pageNames_iff, wants_eq_true_iff, (FileTree.list_spec ht.nodup hlist hd).2.2]
  constructor
  · rintro ⟨hfile, ⟨e, he, hlower⟩, hexclude⟩
    obtain ⟨-, stem, hstem, hdot, hname⟩ := Path.extension?_eq_some_iff.mp he
    exact ⟨hfile, ⟨stem, e, hstem, hdot, hname, hlower⟩, hexclude⟩
  · rintro ⟨⟨text, hfile⟩, ⟨stem, e, hstem, hdot, hname, hlower⟩, hexclude⟩
    have hparent : name ≠ "..".toList := (ht.child hfile).2.1.notParent
    have he := Path.extension?_eq_some_iff.mpr ⟨hparent, stem, hstem, hdot, hname⟩
    exact ⟨⟨text, hfile⟩, ⟨e, he, hlower⟩, hexclude⟩

theorem find_eq_ok (h : (r.find t).1 = .ok pages) :
    ∃ entries, t.list r.dir = .ok entries ∧
      r.readPages t (r.pageNames entries) = (pages, none) := by
  rw [find] at h
  split at h
  · cases h
  · split at h
    · cases h
    · next entries hlist =>
      split at h
      · cases h
      · next hread =>
        cases h
        exact ⟨entries, hlist, hread⟩

theorem find_ne_write (r : DocsRequest) (t : FileTree) (p : Path) (e : FileError) :
    (r.find t).1 ≠ .error (.write p e) := by
  rw [find]
  split
  · exact nofun
  · split
    · exact nofun
    · split
      · next hread =>
        obtain ⟨_, _, _, -, -, rfl⟩ := readPages_eq_some (congrArg Prod.snd hread)
        exact nofun
      · exact nofun

theorem isScan_of_find (ht : t.IsTree) (h : (r.find t).1 = .ok pages) :
    ∃ d, r.IsScan t d pages := by
  obtain ⟨entries, hlist, hread⟩ := find_eq_ok h
  obtain ⟨d, hd, -⟩ := FileTree.list_eq_ok_iff.mp hlist
  have hnames := map_fst_of_readPages (congrArg Prod.snd hread)
  have hspec := (readPages_spec r t (r.pageNames entries)).2
  rw [hread] at hnames hspec
  have hmem : ∀ name, name ∈ pages.map Prod.fst ↔ r.IsPage t d name := fun name ↦ by
    rw [hnames, mem_pageNames_iff_isPage ht hlist hd]
  refine ⟨d, hd, ?_, hmem, ?_⟩
  · rw [hnames]
    exact pairwise_pageNames (FileTree.list_spec ht.nodup hlist hd).2.1
  · intro x hx
    obtain ⟨markup, hmarkup, hpage⟩ := hspec x hx
    obtain ⟨text, htext⟩ := ((hmem x.1).mp (List.mem_map_of_mem hx)).file
    obtain ⟨hdirectory, hname, hlength⟩ := ht.child htext
    exact ⟨markup,
      FileTree.lookup_of_readText_join hd hdirectory hname hlength htext hmarkup, hpage⟩

/-- If a page cannot be read, the scan fails at the first such page. -/
theorem isUnread_of_find (ht : t.IsTree) (hextension : r.pageExtension ≠ [])
    (hd : t.resolve r.dir = .ok d) (hpage : r.IsPage t d name) {e : FileError}
    (he : t.readText (Path.join r.dir name) = .error e) :
    ∃ name e, r.IsUnread t d name e ∧ (r.find t).1 = .error (.load (Path.join r.dir name) e) := by
  obtain ⟨text, htext⟩ := hpage.file
  obtain ⟨entries, hlist⟩ : ∃ entries, t.list r.dir = .ok entries :=
    ⟨_, FileTree.list_eq_ok_iff.mpr ⟨d, hd, (ht.child htext).1, rfl⟩⟩
  have hmem : ∀ {name}, name ∈ r.pageNames entries ↔ r.IsPage t d name :=
    mem_pageNames_iff_isPage ht hlist hd
  have hread := (readPages_spec r t (r.pageNames entries)).2
  cases hfailure : (r.readPages t (r.pageNames entries)).2 with
  | none =>
    have hname := hmem.mpr hpage
    rw [← map_fst_of_readPages hfailure, List.mem_map] at hname
    obtain ⟨x, hx, rfl⟩ := hname
    obtain ⟨markup, hmarkup, -⟩ := hread x hx
    rw [he] at hmarkup
    cases hmarkup
  | some failure =>
    obtain ⟨name', e', rest, hnames, herror, rfl⟩ := readPages_eq_some hfailure
    refine ⟨name', e', ⟨hmem.mp (hnames ▸ by simp), herror, ?_⟩, ?_⟩
    · -- a page of smaller name is among those that were read, since names ascend
      intro name hname hlt
      have hascending : (r.pageNames entries).Pairwise (Text.utf8 · < Text.utf8 ·) :=
        pairwise_pageNames (FileTree.list_spec ht.nodup hlist hd).2.1
      have hname := hmem.mpr hname
      rw [hnames] at hname hascending
      rcases List.mem_append.mp hname with hfront | hback
      · obtain ⟨x, hx, rfl⟩ := List.mem_map.mp hfront
        obtain ⟨markup, hmarkup, -⟩ := hread x hx
        exact ⟨markup, hmarkup⟩
      · rcases List.mem_cons.mp hback with rfl | hrest
        · exact absurd hlt (List.lt_irrefl _)
        · have := List.rel_of_pairwise_cons (List.pairwise_append.mp hascending).2.1 hrest
          exact absurd hlt (List.lt_asymm this)
    · rw [find, if_neg (by simpa using hextension), hlist]
      dsimp only
      split
      · next hsome =>
        rw [hsome] at hfailure
        cases hfailure
        rfl
      · next hnone =>
        rw [hnone] at hfailure
        cases hfailure

theorem find_of_perm (ht : (t.entries.map Prod.fst).Nodup) (hp : t'.entries.Perm t.entries)
    (hw : t'.working = t.working) (r : DocsRequest) : r.find t' = r.find t := by
  have hs := FileTree.same_of_perm ht hp hw
  rw [find, find]
  rcases FileTree.list_of_perm ht hp hw r.dir with ⟨e, h', h⟩ | ⟨xs', xs, h', h, hxs⟩
  · rw [h, h']
  · rw [h, h']
    simp only [pageNames_of_perm hxs, readPages_congr hs]

end Typings.DocsRequest
