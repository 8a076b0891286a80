import Typings.Proofs.Files.Preservation

/-!
# Saving again

A tree that `Grows` from another has further directories, and files where there was room for them.
Where a text was saved before the tree grew, a text can be saved again: all directories are there by
now, and so is the file, so that no more than its text is changed (`save_again`).
-/

namespace Typings.FileTree

variable {t t' t'' u : FileTree} {l d : Location} {name : Text} {names rest : List Text}
variable {stop : Stop} {n : Nat} {p q target : Path} {s s' : Text} {text : Option Text}
variable {slash : Bool} {W W' : Location → Prop}

/-! ## Trees that grew -/

/-- The tree `t'` is `t` with further directories, and with files at places in `W` where there was
room for them. -/
structure Grows (W : Location → Prop) (t t' : FileTree) : Prop where
  working : t'.working = t.working
  lookup : ∀ l, t'.lookup l = t.lookup l ∨
    t.lookup l = none ∧ t'.lookup l = some .directory ∨
    W l ∧ t.HasRoom l ∧ ∃ text, t'.lookup l = some (.file text)

namespace Grows

theorem refl (W : Location → Prop) (t : FileTree) : Grows W t t := ⟨rfl, fun _ ↦ .inl rfl⟩

theorem mono (hW : ∀ l, W l → W' l) (h : Grows W t t') : Grows W' t t' :=
  ⟨h.working, fun l ↦ (h.lookup l).imp_right (.imp_right (.imp_left (hW l)))⟩

theorem trans (h : Grows W t t') (h' : Grows W t' t'') : Grows W t t'' := by
  refine ⟨h'.working.trans h.working, fun l ↦ ?_⟩
  rcases h'.lookup l with hl' | ⟨hnone', hdir'⟩ | ⟨hW, hroom', hfile'⟩
  · rw [hl']
    exact h.lookup l
  · rcases h.lookup l with hl | ⟨-, hdir⟩ | ⟨-, -, text, hfile⟩
    · exact .inr (.inl ⟨hl ▸ hnone', hdir'⟩)
    · rw [hdir] at hnone'
      cases hnone'
    · rw [hfile] at hnone'
      cases hnone'
  · rcases h.lookup l with hl | ⟨-, hdir⟩ | ⟨-, hroom, -⟩
    · exact .inr (.inr ⟨hW, by rwa [HasRoom, ← hl], hfile'⟩)
    · exact absurd hdir hroom'.ne_directory
    · exact .inr (.inr ⟨hW, hroom, hfile'⟩)

end Grows

/-- What is there stays there, but for the texts of files. -/
theorem Grows.extends (h : Grows W t t') : Extends t t' := by
  have hkept : ∀ {l e}, t.lookup l = some e → (∀ text, e ≠ .file text) → t'.lookup l = some e := by
    intro l e he hfile
    rcases h.lookup l with hl | ⟨hnone, -⟩ | ⟨-, hnone | ⟨text, htext⟩, -⟩
    · rw [hl, he]
    · rw [hnone] at he; cases he
    · rw [hnone] at he; cases he
    · rw [htext] at he
      exact absurd (Option.some.inj he).symm (hfile text)
  refine ⟨h.working, fun _ hl ↦ hkept hl nofun, fun _ _ hl ↦ hkept hl nofun, ?_⟩
  intro l text htext
  rcases h.lookup l with hl | ⟨hnone, -⟩ | ⟨-, -, hfile⟩
  · exact ⟨text, hl.trans htext⟩
  · rw [hnone] at htext; cases htext
  · exact hfile

/-- Files are the same but at places in `W`. -/
theorem Grows.lookup_file_iff (h : Grows W t t') (hl : ¬ W l) :
    t'.lookup l = some (.file text) ↔ t.lookup l = some (.file text) := by
  rcases h.lookup l with hl' | ⟨hnone, hdir⟩ | ⟨hW, -⟩
  · rw [hl']
  · simp [hnone, hdir]
  · exact absurd hW hl

theorem readText_of_grows (h : Grows W t t') (hp : ∀ l, t.resolve p = .ok l → ¬ W l)
    (hread : t.readText p = .ok s) : t'.readText p = .ok s := by
  obtain ⟨l, hl, hfile⟩ := readText_eq_ok_iff.mp hread
  exact readText_eq_ok_iff.mpr
    ⟨l, resolve_mono h.extends hl, (h.lookup_file_iff (hp l hl)).mpr hfile⟩

theorem Saves.lookup (h : Saves p s t t' l) : t'.lookup l = some (.file (some s)) :=
  h.adds.lookup_eq_some (lookup_set_self t h.hasRoom.ne_nil _)

theorem Saves.grows (h : Saves p s t t' l) : Grows (· = l) t t' := by
  refine ⟨h.adds.working, fun l' ↦ ?_⟩
  by_cases hl : l' = l
  · subst hl
    exact .inr (.inr ⟨rfl, h.hasRoom, _, h.lookup⟩)
  · rcases h.adds.lookup l' with hl' | ⟨hnone, hdir, -⟩
    · exact .inl (hl'.trans (lookup_set_of_ne t hl _))
    · exact .inr (.inl ⟨(lookup_set_of_ne t hl _).symm.trans hnone, hdir⟩)

/-! ## Making directories again -/

theorem Walks.of_concat (h : Walks t n l (names ++ [name]) d) :
    ∃ d' stop, Walks t n l names d' ∧ Follows t d' [name] stop := by
  generalize hns : names ++ [name] = ns at h
  induction h generalizing names with
  | arrived h =>
    subst hns
    rcases h.of_concat with ⟨d', hf, hlast⟩ | ⟨_, _, _, hs, -⟩
    · exact ⟨d', _, .arrived hf, hlast⟩
    · cases hs
  | link h htarget hw ih =>
    subst hns
    rcases h.of_concat with ⟨d', hf, hlast⟩ | ⟨_, _, _, hs, hf⟩
    · exact ⟨d', _, .arrived hf, hlast⟩
    · cases hs
      obtain ⟨d', stop, hwalks, hlast⟩ := ih (List.append_assoc _ _ _)
      exact ⟨d', stop, .link hf htarget hwalks, hlast⟩

/-- One more name is that of something in a directory. -/
theorem Follows.of_singleton (h : Follows t l [name] stop) :
    t.lookup l = some .directory ∧
      (name = ['.'] ∨ name = ['.', '.'] ∨ IsPlain name ∧ ∃ e, t.lookup (l ++ [name]) = some e) := by
  cases h with
  | self hl => exact ⟨hl, .inl rfl⟩
  | parent hl => exact ⟨hl, .inr (.inl rfl)⟩
  | link hl hn he => exact ⟨hl, .inr (.inr ⟨hn, _, he⟩)⟩
  | down hl hn he => exact ⟨hl, .inr (.inr ⟨hn, _, he⟩)⟩

theorem isDirectory_iff : t.isDirectory p = true ↔
    ∃ l, t.resolve p = .ok l ∧ t.lookup l = some .directory := by
  rw [isDirectory]
  split
  · next l hl => simp [hl]
  · next hl => simp [hl]

/-- What is there already is not made. -/
theorem makeDirectory_of_resolve (h : t.resolve p = .ok l) :
    t.makeDirectory p = .error .alreadyExists := by
  have hp := (resolve_eq_ok_iff.mp h).1
  have hw := walks_names_of_resolve h
  rw [makeDirectory, hp, Except.bind]
  split
  · rfl
  · next name hlast =>
    rw [← List.dropLast_append_getLast? name hlast] at hw
    obtain ⟨d, stop, hwalks, hlast⟩ := hw.of_concat
    obtain ⟨hd, hname⟩ := hlast.of_singleton
    rw [hwalks.walk_eq, Except.bind, if_neg (not_not.mpr hd)]
    rcases hname with rfl | rfl | ⟨hplain, e, he⟩
    · rfl
    · rfl
    · rw [if_neg (not_or.mpr ⟨hplain.notSelf, hplain.notParent⟩),
        if_neg (Nat.not_lt.mpr hplain.length), he]

theorem makeDirectories_of_isDirectory (h : t.isDirectory p = true) :
    t.makeDirectories p = (.ok (), t) := by
  obtain ⟨l, hl, -⟩ := isDirectory_iff.mp h
  have hexists := makeDirectory_of_resolve hl
  have hensure : t.ensureDirectory p = (.ok (), t) := by
    rw [ensureDirectory, hexists]
    simp [h]
  rw [makeDirectories]
  split
  · rfl
  · split
    · next hmissing _ => rw [hexists] at hmissing; cases hmissing
    · exact hensure

theorem isDirectory_of_ensureDirectory (h : t.ensureDirectory p = (.ok (), t')) :
    t'.isDirectory p = true := by
  rw [ensureDirectory] at h
  split at h
  · next hmade =>
    cases h
    obtain ⟨l, hl, -, rfl, hresolve⟩ := makeDirectory_eq_ok hmade
    exact isDirectory_iff.mpr ⟨l, hresolve, lookup_set_self t hl _⟩
  · split at h
    · next hdirectory => cases h; exact hdirectory
    · cases h

theorem isDirectory_of_makeDirectories (h : t.makeDirectories p = (.ok (), t')) :
    p = [] ∨ t'.isDirectory p = true := by
  rw [makeDirectories] at h
  split at h
  · next hempty => exact .inl (List.isEmpty_iff.mp hempty)
  · split at h
    · split at h
      · cases h
      · exact .inr (isDirectory_of_ensureDirectory h)
    · exact .inr (isDirectory_of_ensureDirectory h)

theorem isDirectory_mono (ht : Extends t t') (h : t.isDirectory p = true) :
    t'.isDirectory p = true := by
  obtain ⟨l, hl, hdirectory⟩ := isDirectory_iff.mp h
  exact isDirectory_iff.mpr ⟨l, resolve_mono ht hl, ht.directory l hdirectory⟩

/-- The directory of a path is made once. -/
theorem makeParent_again (h : t.makeParent p = (.ok (), t')) (ht : Extends t' u) :
    u.makeParent p = (.ok (), u) := by
  rw [makeParent] at h ⊢
  split at h
  · next q hq =>
    rcases isDirectory_of_makeDirectories h with rfl | hdirectory
    · rw [makeDirectories]
      rfl
    · exact makeDirectories_of_isDirectory (isDirectory_mono ht hdirectory)
  · rfl

/-! ## Writing again -/

theorem FollowsToWrite.followToWrite_eq (h : FollowsToWrite t slash l names stop) :
    t.followToWrite l slash names = .ok stop := by
  induction h with
  | self hl _ ih => rw [followToWrite, if_neg (by simp [hl]), if_pos rfl, ih]
  | parent hl _ ih =>
    rw [followToWrite, if_neg (by simp [hl]), if_neg (by decide), if_pos rfl, ih]
  | room hslash hl hn hroom =>
    rw [followToWrite, if_neg (by simp [hl]), if_neg hn.notSelf, if_neg hn.notParent,
      if_neg (by simp [hslash]), if_neg (by simpa using hn.length)]
    rcases hroom with hroom | ⟨text, hroom⟩ <;> rw [hroom] <;> rfl
  | @link l name rest target hslash hl hn he =>
    have hend : ¬ (rest.isEmpty && slash) = true := by
      rw [Bool.and_eq_true, List.isEmpty_iff]
      rintro ⟨hrest, hslash'⟩
      rw [hslash hrest] at hslash'
      cases hslash'
    rw [followToWrite, if_neg (by simp [hl]), if_neg hn.notSelf, if_neg hn.notParent,
      if_neg hend, if_neg (by simpa using hn.length), he]
  | @down l name rest stop hl hn he h ih =>
    have hend : ¬ (rest.isEmpty && slash) = true := by
      cases h <;> simp
    rw [followToWrite, if_neg (by simp [hl]), if_neg hn.notSelf, if_neg hn.notParent,
      if_neg hend, if_neg (by simpa using hn.length), he]
    exact ih

/-- Once there is a file, the way to it is the same. -/
theorem FollowsToWrite.mono (ht : Extends t t')
    (h : FollowsToWrite t slash l names stop)
    (hstop : ∀ d, stop = .arrived d → ∃ text, t'.lookup d = some (.file text)) :
    FollowsToWrite t' slash l names stop := by
  induction h with
  | self hl _ ih => exact .self (ht.directory _ hl) (ih hstop)
  | parent hl _ ih => exact .parent (ht.directory _ hl) (ih hstop)
  | room hslash hl hn _ => exact .room hslash (ht.directory _ hl) hn (.inr (hstop _ rfl))
  | link hslash hl hn he => exact .link hslash (ht.directory _ hl) hn (ht.link _ _ he)
  | down hl hn he _ ih =>
    exact .down (ht.directory _ hl) hn (ht.directory _ he) (ih hstop)

theorem walkToWrite_mono (ht : Extends t t') (hfile : t'.lookup d = some (.file text))
    (h : t.walkToWrite n l slash names = .ok d) : t'.walkToWrite n l slash names = .ok d := by
  fun_induction walkToWrite t n l slash names with
  | case1 => cases h
  | case2 n l slash names d' hf =>
    cases h
    have hf := (followsToWrite_of_followToWrite hf).mono ht
      fun _ heq ↦ ⟨text, Stop.arrived.inj heq ▸ hfile⟩
    rw [walkToWrite.eq_def, hf.followToWrite_eq]
  | case3 => cases h
  | case4 => cases h
  | case5 l slash names l' target rest n hf htarget ih =>
    have hf := (followsToWrite_of_followToWrite hf).mono ht (by simp)
    rw [walkToWrite.eq_def, hf.followToWrite_eq]
    exact (if_neg htarget).trans (ih h)

/-- A text that is written again is written to the same file. -/
theorem writeText_again (h : t.writeText p s = .ok t') (ht : Extends t' u) (s' : Text) :
    ∃ l, t'.resolve p = .ok l ∧ u.writeText p s' = .ok (u.set l (.file (some s'))) := by
  obtain ⟨hp, l, hw, rfl⟩ := writeText_eq_ok_iff.mp h
  have hroom := (walksToWrite_of_walkToWrite hw).hasRoom
  obtain ⟨text, hfile⟩ := ht.file l _ (lookup_set_self t hroom.ne_nil _)
  refine ⟨l, resolve_of_walkToWrite hp hw _, writeText_eq_ok_iff.mpr ⟨hp, l, ?_, rfl⟩⟩
  rw [ht.working]
  exact walkToWrite_mono ((hroom.extends _).trans ht) hfile hw

/-- A text that is saved again is saved in the same file, and nothing has to be made for it. -/
theorem save_again (h : t.save p s = (.ok (), t')) (ht : Extends t' u) (s' : Text) :
    ∃ l, Saves p s t t' l ∧ u.save p s' = (.ok (), u.set l (.file (some s'))) := by
  obtain ⟨l, hsaves⟩ := save_ok (congrArg Prod.fst h)
  rw [h] at hsaves
  refine ⟨l, hsaves, ?_⟩
  rw [save] at h ⊢
  split at h
  · cases h
  · next made hmade =>
    rw [tryWrite] at h
    split at h
    · cases h
    · next hwritten =>
      cases h
      obtain ⟨l', hresolve, hagain⟩ := writeText_again hwritten ht s'
      obtain rfl := Except.ok.inj (hsaves.resolve.symm.trans hresolve)
      obtain ⟨l'', hroom, rfl, -⟩ := writeText_eq_ok hwritten
      rw [makeParent_again hmade ((hroom.extends _).trans ht)]
      change u.tryWrite p s' = _
      rw [tryWrite, hagain]

/-! ## Trees that differ in texts -/

/-- The trees are the same but for the texts of files at places in `W`. -/
structure SameBut (W : Location → Prop) (t t' : FileTree) : Prop where
  working : t'.working = t.working
  lookup : ∀ l, t'.lookup l = t.lookup l ∨ W l ∧
    (∃ text, t.lookup l = some (.file text)) ∧ ∃ text, t'.lookup l = some (.file text)

namespace SameBut

theorem refl (W : Location → Prop) (t : FileTree) : SameBut W t t := ⟨rfl, fun _ ↦ .inl rfl⟩

theorem mono (hW : ∀ l, W l → W' l) (h : SameBut W t t') : SameBut W' t t' :=
  ⟨h.working, fun l ↦ (h.lookup l).imp_right (.imp_left (hW l))⟩

theorem grows (h : SameBut W t t') : Grows W t t' :=
  ⟨h.working, fun l ↦ (h.lookup l).imp_right fun ⟨hW, hfile, hfile'⟩ ↦
    .inr ⟨hW, .inr hfile, hfile'⟩⟩

theorem same (h : SameBut W t t') (hW : ∀ l, ¬ W l) : Same t t' :=
  ⟨h.working.symm, fun l ↦ ((h.lookup l).resolve_right fun hl ↦ hW l hl.1).symm⟩

/-- The file that is saved again has its text from now on, unless it changed later on. -/
theorem save {v : FileTree} (h : t.save p s = (.ok (), t')) (hg : Grows W t' v)
    (hu : SameBut (fun l ↦ v.resolve p = .ok l ∨ W l) v u) :
    ∃ u', u.save p s = (.ok (), u') ∧ SameBut W v u' := by
  obtain ⟨l, hsaves, hagain⟩ := save_again h (hg.extends.trans hu.grows.extends) s
  have hne := hsaves.hasRoom.ne_nil
  have hresolve := resolve_mono hg.extends hsaves.resolve
  refine ⟨_, hagain, hu.working, fun l' ↦ ?_⟩
  by_cases hl : l' = l
  · subst hl
    rw [lookup_set_self u hne]
    rcases hg.lookup l' with heq | ⟨hnone, -⟩ | ⟨hW, -, hfile⟩
    · exact .inl (heq.trans hsaves.lookup).symm
    · rw [hsaves.lookup] at hnone
      cases hnone
    · exact .inr ⟨hW, hfile, _, rfl⟩
  · rw [lookup_set_of_ne u hl]
    rcases hu.lookup l' with heq | ⟨hresolve' | hW, hfiles⟩
    · exact .inl heq
    · exact absurd (Except.ok.inj (hresolve'.symm.trans hresolve)) hl
    · exact .inr ⟨hW, hfiles⟩

end SameBut

end Typings.FileTree
