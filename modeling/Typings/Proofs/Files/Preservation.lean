import Typings.Proofs.Files.Directory
import Typings.Proofs.Files.Saving

/-!
# Trees that stay trees

A directory is made, and a file is written, in a directory that is there and under a name that can
be a file name (`isPlace_of_makeDirectory`, `isPlace_of_walkToWrite`).  So a tree stays one whatever
is saved in it (`IsTree.save`).
-/

namespace Typings

namespace Path

variable {p name : Text}

theorem notMem_of_mem_pieces (h : name ∈ pieces p) : '/' ∉ name := by
  induction p generalizing name with
  | nil =>
    obtain rfl := List.mem_singleton.mp h
    exact List.not_mem_nil
  | cons c p ih =>
    by_cases hc : c = '/'
    · subst hc
      rcases List.mem_cons.mp h with rfl | h
      · exact List.not_mem_nil
      · exact ih h
    · rw [pieces_cons_of_ne hc] at h
      cases hp : pieces p with
      | nil => exact absurd hp (pieces_ne_nil p)
      | cons x xs =>
        rw [hp] at ih h
        rcases List.mem_cons.mp h with rfl | h
        · rw [List.mem_cons, not_or]
          exact ⟨Ne.symm hc, ih List.mem_cons_self⟩
        · exact ih (List.mem_cons_of_mem _ h)

/-- A part of a path between slashes. -/
structure IsName (name : Text) : Prop where
  ne_nil : name ≠ []
  notSlash : '/' ∉ name

theorem isName_of_mem_names (h : name ∈ names p) : IsName name := by
  obtain ⟨hmem, hempty⟩ := List.mem_filter.mp h
  exact ⟨by simpa using hempty, notMem_of_mem_pieces hmem⟩

end Path

namespace FileTree

variable {t t' : FileTree} {l d : Location} {name : Text} {names rest : List Text} {e : Entry}
variable {p target : Path} {s : Text} {n : Nat} {slash : Bool}

theorem IsPlain.isFileName (h : IsPlain name) (hname : Path.IsName name) : Path.IsFileName name :=
  ⟨hname.ne_nil, hname.notSlash, h.notSelf, h.notParent⟩

/-! ## Entries at a place -/

/-- A place in a directory, under a name that can be a file name. -/
structure IsPlace (t : FileTree) (d : Location) (name : Text) : Prop where
  directory : t.lookup d = some .directory
  isFileName : Path.IsFileName name
  length : Text.byteLength name ≤ maxName

theorem IsTree.forall_mem {P : Text → Prop} (hd : t.lookup d = some .directory)
    (h : ∀ x ∈ t.entries, ∀ name ∈ x.1, P name) : ∀ name ∈ d, P name := by
  by_cases hnil : d = []
  · subst hnil
    exact nofun
  · rw [lookup_of_ne_nil hnil, List.lookup_eq_some_iff] at hd
    obtain ⟨xs, ys, hxs, -⟩ := hd
    exact h (d, .directory) (by simp [hxs])

/-- Something can be put into a directory where there was nothing, or a file. -/
theorem IsTree.set (h : t.IsTree) (hl : t.IsPlace d name) (hroom : t.HasRoom (d ++ [name]))
    (e : Entry) : (t.set (d ++ [name]) e).IsTree := by
  have hmem : ∀ x ∈ (t.set (d ++ [name]) e).entries,
      x = (d ++ [name], e) ∨ x ∈ t.entries ∧ x.1 ≠ d ++ [name] := by
    intro x hx
    rcases List.mem_cons.mp hx with hx | hx
    · exact .inl hx
    · exact .inr (by simpa using List.mem_filter.mp hx)
  have hdirectory : ∀ d', t.lookup d' = some .directory →
      (t.set (d ++ [name]) e).lookup d' = some .directory := by
    intro d' hd'
    have hne : d' ≠ d ++ [name] := fun heq ↦ hroom.ne_directory (heq ▸ hd')
    rw [lookup_set_of_ne t hne, hd']
  refine ⟨?_, ?_, ?_, ?_, ?_⟩
  · rw [FileTree.set, List.map_cons, List.nodup_cons]
    refine ⟨?_, h.nodup.sublist (List.filter_sublist.map Prod.fst)⟩
    simp
  · intro x hx
    rcases hmem x hx with rfl | ⟨hx, -⟩
    · exact List.forall_mem_append.mpr ⟨IsTree.forall_mem hl.directory h.isFileName,
        List.forall_mem_singleton.mpr hl.isFileName⟩
    · exact h.isFileName x hx
  · intro x hx
    rcases hmem x hx with rfl | ⟨hx, -⟩
    · exact List.forall_mem_append.mpr ⟨IsTree.forall_mem hl.directory h.length,
        List.forall_mem_singleton.mpr hl.length⟩
    · exact h.length x hx
  · intro x hx
    rcases hmem x hx with rfl | ⟨hx, -⟩
    · simp
    · exact h.ne_nil x hx
  · intro x hx
    rcases hmem x hx with rfl | ⟨hx, -⟩
    · rw [List.dropLast_concat]
      exact hdirectory d hl.directory
    · exact hdirectory _ (h.parent x hx)

/-! ## Making directories -/

theorem isPlace_of_makeDirectory (h : t.makeDirectory p = .ok t') :
    ∃ d name, t.IsPlace d name ∧ t.lookup (d ++ [name]) = none ∧
      t' = t.set (d ++ [name]) .directory := by
  rw [makeDirectory] at h
  cases hp : checkPath p with
  | error e => simp [hp, Except.bind] at h
  | ok =>
    rw [hp, Except.bind] at h
    split at h
    · cases h
    · next name hlast =>
      cases hw : t.walk maxLinks (origin t.working p) (Path.names p).dropLast with
      | error e => simp [hw, Except.bind] at h
      | ok d =>
        rw [hw, Except.bind] at h
        split_ifs at h with hd hdots hlength
        split at h
        · cases h
        · next hnone =>
          cases h
          rw [not_or] at hdots
          have hname := Path.isName_of_mem_names (List.mem_of_getLast? hlast)
          exact ⟨d, name, ⟨not_not.mp hd, ⟨hname.ne_nil, hname.notSlash, hdots.1, hdots.2⟩,
            Nat.not_lt.mp hlength⟩, hnone, rfl⟩

theorem IsTree.ensureDirectory (h : t.IsTree) (p : Path) : (t.ensureDirectory p).2.IsTree := by
  rw [FileTree.ensureDirectory]
  split
  · next hmade =>
    obtain ⟨d, name, hplace, hnone, rfl⟩ := isPlace_of_makeDirectory hmade
    exact h.set hplace (.inl hnone) _
  · exact h

theorem IsTree.makeDirectories (h : t.IsTree) (p : Path) : (t.makeDirectories p).2.IsTree := by
  fun_induction FileTree.makeDirectories t p with
  | case1 => exact h
  | case2 p _ q _ _ e t' hmade ih =>
    rw [hmade] at ih
    exact ih
  | case3 p _ q _ _ _ t' hmade ih =>
    rw [hmade] at ih
    exact ih.ensureDirectory p
  | case4 p => exact h.ensureDirectory p

/-! ## Writing files -/

theorem FollowsToWrite.isPlace (h : FollowsToWrite t slash l names (.arrived d)) :
    ∃ d' name, d = d' ++ [name] ∧ name ∈ names ∧ IsPlain name ∧
      t.lookup d' = some .directory := by
  generalize hs : Stop.arrived d = s at h
  induction h with
  | self _ _ ih =>
    obtain ⟨d', name, hd, hmem, hplace⟩ := ih hs
    exact ⟨d', name, hd, List.mem_cons_of_mem _ hmem, hplace⟩
  | parent _ _ ih =>
    obtain ⟨d', name, hd, hmem, hplace⟩ := ih hs
    exact ⟨d', name, hd, List.mem_cons_of_mem _ hmem, hplace⟩
  | room _ hl hn _ =>
    cases hs
    exact ⟨_, _, rfl, List.mem_cons_self, hn, hl⟩
  | link => cases hs
  | down _ _ _ _ ih =>
    obtain ⟨d', name, hd, hmem, hplace⟩ := ih hs
    exact ⟨d', name, hd, List.mem_cons_of_mem _ hmem, hplace⟩

theorem FollowsToWrite.subset (h : FollowsToWrite t slash l names (.link d target rest)) :
    rest ⊆ names := by
  generalize hs : Stop.link d target rest = s at h
  induction h with
  | self _ _ ih => exact List.subset_cons_of_subset _ (ih hs)
  | parent _ _ ih => exact List.subset_cons_of_subset _ (ih hs)
  | room => cases hs
  | link =>
    cases hs
    exact List.subset_cons_self _ _
  | down _ _ _ _ ih => exact List.subset_cons_of_subset _ (ih hs)

theorem isPlace_of_walkToWrite (h : t.walkToWrite n l slash names = .ok d)
    (hnames : ∀ name ∈ names, Path.IsName name) :
    ∃ d' name, d = d' ++ [name] ∧ t.IsPlace d' name := by
  fun_induction walkToWrite t n l slash names with
  | case1 => cases h
  | case2 n l slash names d hf =>
    cases h
    obtain ⟨d', name, hd, hmem, hplain, hdirectory⟩ :=
      (followsToWrite_of_followToWrite hf).isPlace
    exact ⟨d', name, hd, hdirectory, hplain.isFileName (hnames name hmem), hplain.length⟩
  | case3 => cases h
  | case4 => cases h
  | case5 l slash names l' target rest n hf _ ih =>
    refine ih h (List.forall_mem_append.mpr ⟨fun _ ↦ Path.isName_of_mem_names, ?_⟩)
    exact fun name hname ↦ hnames name ((followsToWrite_of_followToWrite hf).subset hname)

theorem isPlace_of_writeText (h : t.writeText p s = .ok t') :
    ∃ d name, t.IsPlace d name ∧ t.HasRoom (d ++ [name]) ∧
      t' = t.set (d ++ [name]) (.file (some s)) := by
  obtain ⟨-, l, hw, rfl⟩ := writeText_eq_ok_iff.mp h
  obtain ⟨d, name, rfl, hplace⟩ := isPlace_of_walkToWrite hw fun _ ↦ Path.isName_of_mem_names
  exact ⟨d, name, hplace, (walksToWrite_of_walkToWrite hw).hasRoom, rfl⟩

/-- A tree is one whatever is saved in it. -/
theorem IsTree.save (h : t.IsTree) (p : Path) (s : Text) : (t.save p s).2.IsTree := by
  have hparent : (t.makeParent p).2.IsTree := by
    rw [makeParent]
    split
    · exact h.makeDirectories _
    · exact h
  rw [FileTree.save]
  split
  · next hmade => rwa [hmade] at hparent
  · next hmade =>
    rw [hmade] at hparent
    rw [tryWrite]
    split
    · exact hparent
    · next hwritten =>
      obtain ⟨d, name, hplace, hroom, rfl⟩ := isPlace_of_writeText hwritten
      exact hparent.set hplace hroom _

end FileTree

end Typings
