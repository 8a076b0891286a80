import Mathlib.Data.List.Nodup
import Typings.Proofs.Files.Path
import Typings.Proofs.Files.Walk

/-!
# Directories

In a tree that `IsTree`, the entries of a directory are what a look-up finds there, each once
(`mem_children_iff`, `nodup_children`), and a path joined from a directory and a file name leads to
that file (`lookup_of_readText_join`).  The order of the entries shows in the order of a listing and
nowhere else (`same_of_perm`, `list_of_perm`).
-/

namespace Typings.FileTree

variable {t t' : FileTree} {l d : Location} {name s : Text} {text : Option Text} {e : Entry}
variable {dir p : Path}

/-- What a file system promises of its tree: one entry at a place, under a name that can be a file
name, and in a directory. -/
structure IsTree (t : FileTree) : Prop where
  nodup : (t.entries.map Prod.fst).Nodup
  isFileName : ∀ x ∈ t.entries, ∀ name ∈ x.1, Path.IsFileName name
  length : ∀ x ∈ t.entries, ∀ name ∈ x.1, Text.byteLength name ≤ maxName
  ne_nil : ∀ x ∈ t.entries, x.1 ≠ []
  parent : ∀ x ∈ t.entries, t.lookup x.1.dropLast = some .directory

instance : DecidablePred IsTree := fun t ↦
  decidable_of_iff ((t.entries.map Prod.fst).Nodup ∧
      (∀ x ∈ t.entries, ∀ name ∈ x.1, Path.IsFileName name) ∧
      (∀ x ∈ t.entries, ∀ name ∈ x.1, Text.byteLength name ≤ maxName) ∧
      (∀ x ∈ t.entries, x.1 ≠ []) ∧
      ∀ x ∈ t.entries, t.lookup x.1.dropLast = some .directory)
    ⟨fun h ↦ ⟨h.1, h.2.1, h.2.2.1, h.2.2.2.1, h.2.2.2.2⟩,
      fun h ↦ ⟨h.nodup, h.isFileName, h.length, h.ne_nil, h.parent⟩⟩

/-! ## Entries -/

theorem mem_entries_iff (h : (t.entries.map Prod.fst).Nodup) (hl : l ≠ []) :
    (l, e) ∈ t.entries ↔ t.lookup l = some e := by
  rw [lookup_of_ne_nil hl, List.lookup_eq_some_iff]
  constructor
  · intro hmem
    obtain ⟨xs, ys, hxs⟩ := List.append_of_mem hmem
    refine ⟨xs, ys, hxs, fun x hx ↦ bne_iff_ne.mpr ?_⟩
    rw [hxs, List.map_append, List.nodup_append] at h
    exact (h.2.2 x.1 (List.mem_map_of_mem hx) l (by simp)).symm
  · rintro ⟨xs, ys, hxs, _⟩
    simp [hxs]

theorem child_eq_some_iff {x : Location × Entry} {child : Text × Entry} :
    (match x.1.getLast? with
      | some name => if x.1.dropLast = l then some (name, x.2) else none
      | none => none) = some child ↔ x = (l ++ [child.1], child.2) := by
  obtain ⟨place, e⟩ := x
  constructor
  · intro h
    split at h
    · next name hlast =>
      split at h
      · next hd =>
        cases h
        rw [← hd, List.dropLast_append_getLast? name hlast]
      · cases h
    · cases h
  · intro h
    obtain ⟨rfl, rfl⟩ := Prod.mk.inj h
    simp

theorem mem_children_iff (h : (t.entries.map Prod.fst).Nodup) :
    (name, e) ∈ t.children l ↔ t.lookup (l ++ [name]) = some e := by
  rw [← mem_entries_iff h (by simp), children, List.mem_filterMap]
  constructor
  · rintro ⟨x, hx, hchild⟩
    rwa [child_eq_some_iff.mp hchild] at hx
  · exact fun hmem ↦ ⟨_, hmem, by simp⟩

/-- What is found behind a place is in a directory there, under a file name. -/
theorem IsTree.child (h : t.IsTree) (he : t.lookup (d ++ [name]) = some e) :
    t.lookup d = some .directory ∧ Path.IsFileName name ∧ Text.byteLength name ≤ maxName := by
  have hmem := (mem_entries_iff h.nodup (by simp)).mpr he
  have hd := h.parent _ hmem
  rw [List.dropLast_concat] at hd
  exact ⟨hd, h.isFileName _ hmem name (by simp), h.length _ hmem name (by simp)⟩

/-- A name stands in a directory once. -/
theorem nodup_children (h : (t.entries.map Prod.fst).Nodup) (l : Location) :
    ((t.children l).map Prod.fst).Nodup := by
  have hchildren : (t.children l).Nodup :=
    List.Nodup.filterMap (fun x x' child hx hx' ↦
      (child_eq_some_iff.mp hx).trans (child_eq_some_iff.mp hx').symm) h.of_map
  refine List.Nodup.map_on ?_ hchildren
  rintro ⟨name, e⟩ hx ⟨name', e'⟩ hx' rfl
  rw [mem_children_iff h] at hx hx'
  rw [Option.some.inj (hx.symm.trans hx')]

/-! ## The order of entries -/

/-- Trees with the same entries in any order have the same things at the same places. -/
theorem same_of_perm (h : (t.entries.map Prod.fst).Nodup) (hp : t'.entries.Perm t.entries)
    (hw : t'.working = t.working) : Same t' t := by
  have h' : (t'.entries.map Prod.fst).Nodup := (hp.map Prod.fst).nodup_iff.mpr h
  refine ⟨hw, fun l ↦ ?_⟩
  by_cases hl : l = []
  · rw [hl, lookup_nil, lookup_nil]
  · refine Option.ext fun e ↦ ?_
    rw [← mem_entries_iff h hl, ← mem_entries_iff h' hl, hp.mem_iff]

/-! ## Listings -/

def isFile : Entry → Bool
  | .file _ => true
  | _ => false

theorem isFile_iff : isFile e = true ↔ ∃ text, e = .file text := by
  cases e <;> simp [isFile]

theorem list_eq_ok_iff {entries : List (Text × Bool)} : t.list p = .ok entries ↔
    ∃ d, t.resolve p = .ok d ∧ t.lookup d = some .directory ∧
      (t.children d).map (fun x ↦ (x.1, isFile x.2)) = entries := by
  rw [list]
  cases t.resolve p with
  | error e => simp [Except.bind]
  | ok d =>
    constructor
    · intro h
      rw [Except.bind] at h
      split at h
      · next hd => exact ⟨d, rfl, hd, Except.ok.inj h⟩
      · cases h
    · rintro ⟨_, ⟨⟩, hd, rfl⟩
      rw [Except.bind, hd]
      rfl

/-- A listing has each name once, and says which are those of regular files. -/
theorem list_spec {entries : List (Text × Bool)} (h : (t.entries.map Prod.fst).Nodup)
    (hlist : t.list p = .ok entries) (hd : t.resolve p = .ok d) :
    t.lookup d = some .directory ∧ (entries.map Prod.fst).Nodup ∧
      ∀ name, (name, true) ∈ entries ↔ ∃ text, t.lookup (d ++ [name]) = some (.file text) := by
  obtain ⟨d', hd', hdirectory, rfl⟩ := list_eq_ok_iff.mp hlist
  obtain rfl := Except.ok.inj (hd.symm.trans hd')
  refine ⟨hdirectory, ?_, fun name ↦ ?_⟩
  · rw [List.map_map]
    exact nodup_children h d
  · rw [List.mem_map]
    constructor
    · rintro ⟨⟨name', e⟩, hmem, hx⟩
      obtain ⟨rfl, he⟩ := Prod.mk.inj hx
      obtain ⟨text, rfl⟩ := isFile_iff.mp he
      exact ⟨text, (mem_children_iff h).mp hmem⟩
    · rintro ⟨text, hfile⟩
      exact ⟨(name, .file text), (mem_children_iff h).mpr hfile, rfl⟩

theorem list_of_perm (h : (t.entries.map Prod.fst).Nodup) (hp : t'.entries.Perm t.entries)
    (hw : t'.working = t.working) (p : Path) :
    (∃ e, t'.list p = .error e ∧ t.list p = .error e) ∨
      ∃ xs' xs, t'.list p = .ok xs' ∧ t.list p = .ok xs ∧ xs'.Perm xs := by
  have hs := same_of_perm h hp hw
  rw [list, list, resolve_congr hs]
  cases t.resolve p with
  | error e => exact .inl ⟨e, rfl, rfl⟩
  | ok d =>
    simp only [Except.bind, hs.lookup]
    split
    · exact .inr ⟨_, _, rfl, rfl, (hp.filterMap _).map _⟩
    · exact .inl ⟨_, rfl, rfl⟩

/-! ## Files in a directory -/

theorem ne_nil_of_resolve (h : t.resolve p = .ok l) : p ≠ [] := by
  rintro rfl
  have := (resolve_eq_ok_iff.mp h).1
  cases this

theorem resolve_join (hd : t.resolve dir = .ok d) (hdirectory : t.lookup d = some .directory)
    (hname : Path.IsFileName name) (hlength : Text.byteLength name ≤ maxName)
    (hfile : t.lookup (d ++ [name]) = some (.file text))
    (hjoin : checkPath (Path.join dir name) = .ok ()) :
    t.resolve (Path.join dir name) = .ok (d ++ [name]) := by
  have hdir := ne_nil_of_resolve hd
  have hlast : Follows t d [name] (.arrived (d ++ [name])) :=
    .down hdirectory ⟨hname.notSelf, hname.notParent, hlength⟩ hfile nofun .arrived
  refine resolve_eq_ok_iff.mpr ⟨hjoin, ?_⟩
  rw [steps, Path.endsInSlash_join hdir hname, Path.names_join hdir hname, origin,
    Path.isAbsolute_join hdir hname, ← origin]
  simpa using (walks_names_of_resolve hd).append hlast

/-- What is read from a file under its name in a directory is its text. -/
theorem lookup_of_readText_join (hd : t.resolve dir = .ok d)
    (hdirectory : t.lookup d = some .directory) (hname : Path.IsFileName name)
    (hlength : Text.byteLength name ≤ maxName)
    (hfile : t.lookup (d ++ [name]) = some (.file text))
    (hread : t.readText (Path.join dir name) = .ok s) :
    t.lookup (d ++ [name]) = some (.file (some s)) := by
  obtain ⟨l, hl, hs⟩ := readText_eq_ok_iff.mp hread
  have hjoin := resolve_join hd hdirectory hname hlength hfile (resolve_eq_ok_iff.mp hl).1
  rwa [Except.ok.inj (hl.symm.trans hjoin)] at hs

end Typings.FileTree
