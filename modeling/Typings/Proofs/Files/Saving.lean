import Mathlib.Logic.Relation
import Typings.Proofs.Files.Writing

/-!
# Making directories and saving texts

A directory is made where there was nothing (`makeDirectory_eq_ok`), so that making all directories
of a path adds directories at and above that path, and nothing else
(`addsDirectories_makeDirectories`).  Saving a text changes its own file besides (`save_ok`); a text
that is not saved changes no file (`save_error`).
-/

namespace Typings

namespace Path

/-- The path `q` is what is left of `p` without its last names. -/
def IsAbove (q p : Path) : Prop := Relation.TransGen (fun p q ↦ parent? p = some q) p q

/-- The path `q` is `p` or above it. -/
def IsAtOrAbove (q p : Path) : Prop := Relation.ReflTransGen (fun p q ↦ parent? p = some q) p q

theorem IsAtOrAbove.isAbove {p q r : Path} (h : IsAtOrAbove r q) (hp : parent? p = some q) :
    IsAbove r p :=
  Relation.TransGen.head' hp h

end Path

namespace FileTree

variable {t t' t'' : FileTree} {l d : Location} {s : Text} {p : Path} {n : Nat}
variable {P Q : Path → Prop}

/-! ## Making directories -/

theorem Walks.steps (h : Walks t n l (Path.names p) d) (hd : t.lookup d = some .directory) :
    Walks t n l (FileTree.steps p) d := by
  rw [FileTree.steps]
  split
  · exact h.append (.self hd .arrived)
  · rwa [List.append_nil]

/-- A directory is made where there was nothing, and its path leads there now. -/
theorem makeDirectory_eq_ok (h : t.makeDirectory p = .ok t') :
    ∃ l, l ≠ [] ∧ t.lookup l = none ∧ t' = t.set l .directory ∧ t'.resolve p = .ok l := by
  rw [makeDirectory] at h
  cases hp : checkPath p with
  | error e => simp [hp, Except.bind] at h
  | ok =>
    rw [hp, Except.bind] at h
    split at h
    · cases h
    · next name hlast =>
      cases hw : t.walk maxLinks (origin t.working p) (Path.names p).dropLast with
      | error e => simp [hw, Except.bind] at h
      | ok d =>
        rw [hw, Except.bind] at h
        split_ifs at h with hd hdots hlength
        split at h
        · cases h
        · next hnone =>
          cases h
          rw [not_or] at hdots
          have hne : d ++ [name] ≠ [] := by simp
          have ht : Extends t (t.set (d ++ [name]) .directory) :=
            extends_set fun e he ↦ by simp [hnone] at he
          have hmade := lookup_set_self t hne .directory
          have hw := (walks_of_walk hw).mono ht
          have hdown : Follows (t.set (d ++ [name]) .directory) d [name] (.arrived (d ++ [name])) :=
            .down (ht.directory _ (not_not.mp hd)) ⟨hdots.1, hdots.2, Nat.not_lt.mp hlength⟩ hmade
              (fun _ h ↦ by cases h) .arrived
          have hnames : (Path.names p).dropLast ++ [name] = Path.names p :=
            List.dropLast_append_getLast? name hlast
          refine ⟨d ++ [name], hne, hnone, rfl, resolve_eq_ok_iff.mpr ⟨hp, ?_⟩⟩
          have := hw.append hdown
          rw [hnames] at this
          exact this.steps hmade

/-- The tree `t'` is `t` with further directories, to each of which a path with `P` leads. -/
structure AddsDirectories (P : Path → Prop) (t t' : FileTree) : Prop where
  working : t'.working = t.working
  lookup : ∀ l, t'.lookup l = t.lookup l ∨
    t.lookup l = none ∧ t'.lookup l = some .directory ∧ ∃ q, P q ∧ t'.resolve q = .ok l

theorem AddsDirectories.refl (P : Path → Prop) (t : FileTree) : AddsDirectories P t t :=
  ⟨rfl, fun _ ↦ .inl rfl⟩

theorem AddsDirectories.lookup_eq_some {e : Entry} (h : AddsDirectories P t t')
    (he : t.lookup l = some e) : t'.lookup l = some e := by
  rcases h.lookup l with hl | ⟨hnone, _⟩
  · rw [hl, he]
  · rw [hnone] at he
    cases he

theorem AddsDirectories.extends (h : AddsDirectories P t t') : Extends t t' :=
  ⟨h.working, fun _ ↦ h.lookup_eq_some, fun _ _ ↦ h.lookup_eq_some,
    fun _ text he ↦ ⟨text, h.lookup_eq_some he⟩⟩

theorem AddsDirectories.mono (hPQ : ∀ q, P q → Q q) (h : AddsDirectories P t t') :
    AddsDirectories Q t t' := by
  refine ⟨h.working, fun l ↦ ?_⟩
  rcases h.lookup l with hl | ⟨hnone, hmade, q, hq, hresolve⟩
  · exact .inl hl
  · exact .inr ⟨hnone, hmade, q, hPQ q hq, hresolve⟩

theorem AddsDirectories.trans (h : AddsDirectories P t t') (h' : AddsDirectories P t' t'') :
    AddsDirectories P t t'' := by
  refine ⟨h'.working.trans h.working, fun l ↦ ?_⟩
  rcases h'.lookup l with hl' | ⟨hnone', hmade', hq'⟩
  · rw [hl']
    rcases h.lookup l with hl | ⟨hnone, hmade, q, hq, hresolve⟩
    · exact .inl hl
    · exact .inr ⟨hnone, hmade, q, hq, resolve_mono h'.extends hresolve⟩
  · rcases h.lookup l with hl | ⟨_, hmade, _⟩
    · exact .inr ⟨hl ▸ hnone', hmade', hq'⟩
    · rw [hnone'] at hmade
      cases hmade

theorem addsDirectories_ensureDirectory (t : FileTree) (p : Path) :
    AddsDirectories (· = p) t (t.ensureDirectory p).2 := by
  rw [ensureDirectory]
  cases h : t.makeDirectory p with
  | error e => exact .refl _ t
  | ok t' =>
    obtain ⟨l, hl, hnone, rfl, hresolve⟩ := makeDirectory_eq_ok h
    refine ⟨rfl, fun l' ↦ ?_⟩
    by_cases hne : l' = l
    · subst hne
      exact .inr ⟨hnone, lookup_set_self t hl _, p, rfl, hresolve⟩
    · exact .inl (lookup_set_of_ne t hne _)

/-- All directories that are made for a path are at or above it. -/
theorem addsDirectories_makeDirectories (t : FileTree) (p : Path) :
    AddsDirectories (Path.IsAtOrAbove · p) t (t.makeDirectories p).2 := by
  have hensure : ∀ (t : FileTree) (p : Path),
      AddsDirectories (Path.IsAtOrAbove · p) t (t.ensureDirectory p).2 := by
    intro t p
    refine (addsDirectories_ensureDirectory t p).mono ?_
    rintro q rfl
    exact Relation.ReflTransGen.refl
  have habove : ∀ {t t' : FileTree} {p q : Path}, Path.parent? p = some q →
      AddsDirectories (Path.IsAtOrAbove · q) t t' → AddsDirectories (Path.IsAtOrAbove · p) t t' :=
    fun hq ht ↦ ht.mono fun _ hr ↦ Relation.ReflTransGen.head hq hr
  fun_induction makeDirectories t p with
  | case1 => exact .refl _ _
  | case2 p _ q hq _ e t' hmade ih =>
    rw [hmade] at ih
    exact habove hq ih
  | case3 p _ q hq _ _ t' hmade ih =>
    rw [hmade] at ih
    exact (habove hq ih).trans (hensure t' p)
  | case4 p => exact hensure t p

/-! ## Saving -/

/-- Makes the directory that a path lies in. -/
def makeParent (t : FileTree) (p : Path) : Except FileError Unit × FileTree :=
  match Path.parent? p with
  | some q => t.makeDirectories q
  | none => (.ok (), t)

/-- Writes a text to a file, and leaves the tree alone if that fails. -/
def tryWrite (t : FileTree) (p : Path) (s : Text) : Except FileError Unit × FileTree :=
  match t.writeText p s with
  | .error e => (.error e, t)
  | .ok t' => (.ok (), t')

/-- Writes a text to a file, and makes the directory for it. What was made before an error stays. -/
def save (t : FileTree) (p : Path) (s : Text) : Except FileError Unit × FileTree :=
  match t.makeParent p with
  | (.error e, t') => (.error e, t')
  | (.ok _, t') => t'.tryWrite p s

theorem addsDirectories_makeParent (t : FileTree) (p : Path) :
    AddsDirectories (Path.IsAbove · p) t (t.makeParent p).2 := by
  rw [makeParent]
  split
  · next q hq => exact (addsDirectories_makeDirectories t q).mono fun _ hr ↦ hr.isAbove hq
  · exact .refl _ t

/-- The tree `t'` is `t` with the text in the file at `l`, to which the path leads, and further
directories above that path. -/
structure Saves (p : Path) (s : Text) (t t' : FileTree) (l : Location) : Prop where
  hasRoom : HasRoom t l
  adds : AddsDirectories (Path.IsAbove · p) (t.set l (.file (some s))) t'
  resolve : t'.resolve p = .ok l

theorem AddsDirectories.hasRoom (h : AddsDirectories P t t') (hroom : HasRoom t' l) :
    HasRoom t l := by
  rcases h.lookup l with hl | ⟨hnone, _⟩
  · rwa [HasRoom, ← hl]
  · exact .inl hnone

theorem AddsDirectories.set_file (h : AddsDirectories P t t') (hroom : HasRoom t' l)
    (text : Option Text) :
    AddsDirectories P (t.set l (.file text)) (t'.set l (.file text)) := by
  refine ⟨h.working, fun l' ↦ ?_⟩
  by_cases hl : l' = l
  · subst hl
    rw [lookup_set_self t hroom.ne_nil, lookup_set_self t' hroom.ne_nil]
    exact .inl rfl
  · rw [lookup_set_of_ne t hl, lookup_set_of_ne t' hl]
    rcases h.lookup l' with hl' | ⟨hnone, hmade, q, hq, hresolve⟩
    · exact .inl hl'
    · exact .inr ⟨hnone, hmade, q, hq, resolve_mono (hroom.extends text) hresolve⟩

theorem save_error {e : FileError} (h : (t.save p s).1 = .error e) :
    AddsDirectories (Path.IsAbove · p) t (t.save p s).2 := by
  have hparent := addsDirectories_makeParent t p
  rw [save] at h ⊢
  split at h
  · next hmade => rwa [hmade] at hparent
  · next hmade =>
    rw [hmade] at hparent
    rw [tryWrite] at h ⊢
    split at h
    · exact hparent
    · cases h

theorem save_ok (h : (t.save p s).1 = .ok ()) : ∃ l, Saves p s t (t.save p s).2 l := by
  have hparent := addsDirectories_makeParent t p
  rw [save] at h ⊢
  split at h
  · cases h
  · next hmade =>
    rw [hmade] at hparent
    rw [tryWrite] at h ⊢
    split at h
    · cases h
    · next hwritten =>
      obtain ⟨l, hroom, rfl, hresolve⟩ := writeText_eq_ok hwritten
      exact ⟨l, hparent.hasRoom hroom, hparent.set_file hroom _, hresolve⟩

/-- Whether a text can be saved is no matter of the text. -/
theorem save_fst (t : FileTree) (p : Path) (s s' : Text) : (t.save p s).1 = (t.save p s').1 := by
  have hwrite : ∀ u : FileTree, (u.tryWrite p s).1 = (u.tryWrite p s').1 := by
    intro u
    rw [tryWrite, tryWrite, writeText, writeText]
    cases checkPath p with
    | error e => rfl
    | ok =>
      rw [Except.bind, Except.bind]
      cases u.walkToWrite maxLinks (origin u.working p) (Path.endsInSlash p) (Path.names p) <;> rfl
  rw [save, save]
  rcases t.makeParent p with ⟨_ | _, u⟩
  · rfl
  · exact hwrite u

theorem Saves.readText (h : Saves p s t t' l) : t'.readText p = .ok s :=
  readText_eq_ok_iff.mpr
    ⟨l, h.resolve, h.adds.lookup_eq_some (lookup_set_self t h.hasRoom.ne_nil _)⟩

/-! ## Same trees -/

theorem makeDirectory_congr (h : Same t t') (p : Path) :
    SameTrees (t.makeDirectory p) (t'.makeDirectory p) := by
  simp only [makeDirectory, h.working, walk_congr h, h.lookup]
  cases checkPath p with
  | error e => exact .error e
  | ok =>
    rw [Except.bind, Except.bind]
    split
    · exact .error _
    · cases t'.walk maxLinks (origin t'.working p) (Path.names p).dropLast with
      | error e => exact .error e
      | ok l =>
        rw [Except.bind, Except.bind]
        split_ifs
        · exact .error _
        · exact .error _
        · exact .error _
        · split
          · exact .error _
          · exact .ok (h.set _ _)

theorem isDirectory_congr (h : Same t t') (p : Path) : t.isDirectory p = t'.isDirectory p := by
  simp only [isDirectory, resolve_congr h, h.lookup]

/-- The same outcome, with the same things in the trees. -/
structure SameDone (x x' : Except FileError Unit × FileTree) : Prop where
  outcome : x.1 = x'.1
  files : Same x.2 x'.2

theorem ensureDirectory_congr (h : Same t t') (p : Path) :
    SameDone (t.ensureDirectory p) (t'.ensureDirectory p) := by
  have hmade := makeDirectory_congr h p
  rw [ensureDirectory, ensureDirectory, isDirectory_congr h]
  generalize t.makeDirectory p = x at hmade
  generalize t'.makeDirectory p = x' at hmade
  cases hmade with
  | error e => exact ⟨rfl, h⟩
  | ok hmade => exact ⟨rfl, hmade⟩

theorem makeDirectories_congr (h : Same t t') (p : Path) :
    SameDone (t.makeDirectories p) (t'.makeDirectories p) := by
  have hmade := fun q ↦ makeDirectory_congr h q
  fun_induction makeDirectories t p with
  | case1 p hp =>
    rw [makeDirectories, if_pos hp]
    exact ⟨rfl, h⟩
  | case2 p hp q hq hmissing e u hu ih =>
    rw [hu] at ih
    rw [makeDirectories, if_neg hp]
    split
    · next q' _ hq' =>
      obtain rfl := Option.some.inj (hq.symm.trans hq')
      generalize t'.makeDirectories q = x at ih
      obtain ⟨_, u'⟩ := x
      obtain ⟨⟨⟩, hfiles⟩ := ih
      exact ⟨rfl, hfiles⟩
    · next hne => exact absurd hq (hne q ((hmade p).eq_error_iff.mp hmissing))
  | case3 p hp q hq hmissing _ u hu ih =>
    rw [hu] at ih
    rw [makeDirectories, if_neg hp]
    split
    · next q' _ hq' =>
      obtain rfl := Option.some.inj (hq.symm.trans hq')
      generalize t'.makeDirectories q = x at ih
      obtain ⟨_, u'⟩ := x
      obtain ⟨⟨⟩, hfiles⟩ := ih
      exact ensureDirectory_congr hfiles p
    · next hne => exact absurd hq (hne q ((hmade p).eq_error_iff.mp hmissing))
  | case4 p hp hne =>
    rw [makeDirectories, if_neg hp]
    split
    · next q hmissing hq => exact absurd hq (hne q ((hmade p).eq_error_iff.mpr hmissing))
    · exact ensureDirectory_congr h p

theorem makeParent_congr (h : Same t t') (p : Path) :
    SameDone (t.makeParent p) (t'.makeParent p) := by
  rw [makeParent, makeParent]
  split
  · exact makeDirectories_congr h _
  · exact ⟨rfl, h⟩

theorem tryWrite_congr (h : Same t t') (p : Path) (s : Text) :
    SameDone (t.tryWrite p s) (t'.tryWrite p s) := by
  have hwritten := writeText_congr h p s
  rw [tryWrite, tryWrite]
  generalize t.writeText p s = x at hwritten
  generalize t'.writeText p s = x' at hwritten
  cases hwritten with
  | error e => exact ⟨rfl, h⟩
  | ok hwritten => exact ⟨rfl, hwritten⟩

theorem save_congr (h : Same t t') (p : Path) (s : Text) :
    SameDone (t.save p s) (t'.save p s) := by
  have hparent := makeParent_congr h p
  rw [save, save]
  generalize t.makeParent p = x at hparent
  generalize t'.makeParent p = x' at hparent
  obtain ⟨made, u⟩ := x
  obtain ⟨_, u'⟩ := x'
  obtain ⟨⟨⟩, hfiles⟩ := hparent
  cases made with
  | error e => exact ⟨rfl, hfiles⟩
  | ok => exact tryWrite_congr hfiles p s

end FileTree

end Typings
