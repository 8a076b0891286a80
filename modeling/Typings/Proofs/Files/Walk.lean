import Typings.Proofs.Files.Tree

/-!
# Walking along paths

`Follows` and `Walks` say how names lead from one place to another, link by link; the functions that
walk find exactly that (`follow_eq_ok_iff`, `walk_eq_ok_iff`).  From this: a tree that extends
another leads to the same places (`Walks.mono`), and names can be walked one after the other
(`Walks.append`).
-/

namespace Typings.FileTree

variable {t t' : FileTree} {l l' d : Location} {name : Text} {names names' rest : List Text}
variable {stop : Stop} {n : Nat} {target p : Path}

/-- A name that leads down from a directory. The names `.` and `..` do not. -/
structure IsPlain (name : Text) : Prop where
  notSelf : name ≠ ['.']
  notParent : name ≠ ['.', '.']
  length : Text.byteLength name ≤ maxName

/-! ## Up to the first link -/

/-- The names lead from `l` to `stop`. -/
inductive Follows (t : FileTree) : Location → List Text → Stop → Prop
  | arrived {l : Location} : Follows t l [] (.arrived l)
  | self {l : Location} {rest : List Text} {stop : Stop} : t.lookup l = some .directory →
      Follows t l rest stop → Follows t l (['.'] :: rest) stop
  | parent {l : Location} {rest : List Text} {stop : Stop} : t.lookup l = some .directory →
      Follows t l.dropLast rest stop → Follows t l (['.', '.'] :: rest) stop
  | link {l : Location} {name : Text} {rest : List Text} {target : Path} :
      t.lookup l = some .directory → IsPlain name → t.lookup (l ++ [name]) = some (.link target) →
        Follows t l (name :: rest) (.link l target rest)
  | down {l : Location} {name : Text} {rest : List Text} {e : Entry} {stop : Stop} :
      t.lookup l = some .directory → IsPlain name → t.lookup (l ++ [name]) = some e →
        (∀ target, e ≠ .link target) → Follows t (l ++ [name]) rest stop →
          Follows t l (name :: rest) stop

theorem Follows.follow_eq (h : Follows t l names stop) : t.follow l names = .ok stop := by
  induction h with
  | arrived => rfl
  | self hl _ ih => rw [follow, if_neg (by simp [hl]), if_pos rfl, ih]
  | parent hl _ ih => rw [follow, if_neg (by simp [hl]), if_neg (by decide), if_pos rfl, ih]
  | link hl hn he =>
    rw [follow, if_neg (by simp [hl]), if_neg hn.notSelf, if_neg hn.notParent,
      if_neg (by simpa using hn.length), he]
  | @down l name rest e stop hl hn he hlink _ ih =>
    rw [follow, if_neg (by simp [hl]), if_neg hn.notSelf, if_neg hn.notParent,
      if_neg (by simpa using hn.length), he]
    cases e with
    | link target => exact absurd rfl (hlink target)
    | file text => exact ih
    | directory => exact ih

theorem follows_of_follow (h : t.follow l names = .ok stop) : Follows t l names stop := by
  fun_induction follow t l names with
  | case1 l =>
    cases h
    exact .arrived
  | case2 => cases h
  | case3 l rest hl ih => exact .self (not_not.mp hl) (ih h)
  | case4 l rest hl _ ih => exact .parent (not_not.mp hl) (ih h)
  | case5 => cases h
  | case6 => cases h
  | case7 l name rest hl hself hparent hlength target he =>
    cases h
    exact .link (not_not.mp hl) ⟨hself, hparent, Nat.not_lt.mp hlength⟩ he
  | case8 l name rest hl hself hparent hlength e hlink he ih =>
    exact .down (not_not.mp hl) ⟨hself, hparent, Nat.not_lt.mp hlength⟩ he hlink (ih h)

theorem follow_eq_ok_iff : t.follow l names = .ok stop ↔ Follows t l names stop :=
  ⟨follows_of_follow, Follows.follow_eq⟩

theorem Follows.mono (ht : Extends t t') (h : Follows t l names stop) :
    Follows t' l names stop := by
  induction h with
  | arrived => exact .arrived
  | self hl _ ih => exact .self (ht.directory _ hl) ih
  | parent hl _ ih => exact .parent (ht.directory _ hl) ih
  | link hl hn he => exact .link (ht.directory _ hl) hn (ht.link _ _ he)
  | @down l name rest e stop hl hn he hlink _ ih =>
    cases e with
    | link target => exact absurd rfl (hlink target)
    | directory => exact .down (ht.directory _ hl) hn (ht.directory _ he) hlink ih
    | file text =>
      obtain ⟨text', he'⟩ := ht.file _ _ he
      exact .down (ht.directory _ hl) hn he' nofun ih

theorem Follows.append (h : Follows t l names (.arrived d)) (h' : Follows t d names' stop) :
    Follows t l (names ++ names') stop := by
  generalize hs : Stop.arrived d = s at h
  induction h with
  | arrived =>
    cases hs
    exact h'
  | self hl _ ih => exact .self hl (ih hs)
  | parent hl _ ih => exact .parent hl (ih hs)
  | link => cases hs
  | down hl hn he hlink _ ih => exact .down hl hn he hlink (ih hs)

theorem Follows.link_append (h : Follows t l names (.link d target rest)) (names' : List Text) :
    Follows t l (names ++ names') (.link d target (rest ++ names')) := by
  generalize hs : Stop.link d target rest = s at h
  induction h with
  | arrived => cases hs
  | self hl _ ih => exact .self hl (ih hs)
  | parent hl _ ih => exact .parent hl (ih hs)
  | link hl hn he =>
    cases hs
    exact .link hl hn he
  | down hl hn he hlink _ ih => exact .down hl hn he hlink (ih hs)

/-- A walk that goes on with one more name has come to a directory before that, or to a link. -/
theorem Follows.of_concat (h : Follows t l (names ++ [name]) stop) :
    (∃ d, Follows t l names (.arrived d) ∧ Follows t d [name] stop) ∨
      ∃ d target rest, stop = .link d target (rest ++ [name]) ∧
        Follows t l names (.link d target rest) := by
  induction names generalizing l with
  | nil => exact .inl ⟨l, .arrived, h⟩
  | cons first names ih =>
    cases h with
    | self hl h =>
      rcases ih h with ⟨d, hf, hlast⟩ | ⟨d, target, rest, rfl, hf⟩
      · exact .inl ⟨d, .self hl hf, hlast⟩
      · exact .inr ⟨d, target, rest, rfl, .self hl hf⟩
    | parent hl h =>
      rcases ih h with ⟨d, hf, hlast⟩ | ⟨d, target, rest, rfl, hf⟩
      · exact .inl ⟨d, .parent hl hf, hlast⟩
      · exact .inr ⟨d, target, rest, rfl, .parent hl hf⟩
    | link hl hn he => exact .inr ⟨l, _, names, rfl, .link hl hn he⟩
    | down hl hn he hlink h =>
      rcases ih h with ⟨d, hf, hlast⟩ | ⟨d, target, rest, rfl, hf⟩
      · exact .inl ⟨d, .down hl hn he hlink hf, hlast⟩
      · exact .inr ⟨d, target, rest, rfl, .down hl hn he hlink hf⟩

/-- A name `.` at the end leads nowhere else. -/
theorem Follows.of_append_self (h : Follows t l (names ++ [['.']]) stop) :
    (∃ d, stop = .arrived d ∧ Follows t l names (.arrived d)) ∨
      ∃ d target rest, stop = .link d target (rest ++ [['.']]) ∧
        Follows t l names (.link d target rest) := by
  rcases h.of_concat with ⟨d, hf, hlast⟩ | hlink
  · cases hlast with
    | self _ h =>
      cases h
      exact .inl ⟨d, rfl, hf⟩
    | link _ hn _ => exact absurd rfl hn.notSelf
    | down _ hn _ _ _ => exact absurd rfl hn.notSelf
  · exact .inr hlink

/-- A name `.` before further names leads nowhere else. -/
theorem Follows.insert_self (hrest : rest ≠ []) (h : Follows t l (names ++ rest) stop) :
    Follows t l (names ++ ['.'] :: rest) stop ∨
      ∃ d target names', stop = .link d target (names' ++ rest) ∧
        Follows t l (names ++ ['.'] :: rest) (.link d target (names' ++ ['.'] :: rest)) := by
  induction names generalizing l with
  | nil =>
    have hl : t.lookup l = some .directory := by
      cases h with
      | arrived => exact absurd rfl hrest
      | self hl => exact hl
      | parent hl => exact hl
      | link hl => exact hl
      | down hl => exact hl
    exact .inl (.self hl h)
  | cons name names ih =>
    cases h with
    | self hl h =>
      rcases ih h with hf | ⟨d, target, names', rfl, hf⟩
      · exact .inl (.self hl hf)
      · exact .inr ⟨d, target, names', rfl, .self hl hf⟩
    | parent hl h =>
      rcases ih h with hf | ⟨d, target, names', rfl, hf⟩
      · exact .inl (.parent hl hf)
      · exact .inr ⟨d, target, names', rfl, .parent hl hf⟩
    | link hl hn he => exact .inr ⟨l, _, names, rfl, .link hl hn he⟩
    | down hl hn he hlink h =>
      rcases ih h with hf | ⟨d, target, names', rfl, hf⟩
      · exact .inl (.down hl hn he hlink hf)
      · exact .inr ⟨d, target, names', rfl, .down hl hn he hlink hf⟩

/-! ## Through links -/

/-- The names lead from `l` to `l'` through at most `n` links. -/
inductive Walks (t : FileTree) : Nat → Location → List Text → Location → Prop
  | arrived {n : Nat} {l l' : Location} {names : List Text} :
      Follows t l names (.arrived l') → Walks t n l names l'
  | link {n : Nat} {l l' d : Location} {names rest : List Text} {target : Path} :
      Follows t l names (.link d target rest) → target ≠ [] →
        Walks t n (origin d target) (steps target ++ rest) l' → Walks t (n + 1) l names l'

theorem Walks.walk_eq (h : Walks t n l names l') : t.walk n l names = .ok l' := by
  induction h with
  | arrived h => rw [walk.eq_def, h.follow_eq]
  | link h htarget _ ih =>
    rw [walk.eq_def, h.follow_eq]
    exact (if_neg (by simpa using htarget)).trans ih

theorem walks_of_walk (h : t.walk n l names = .ok l') : Walks t n l names l' := by
  fun_induction walk t n l names with
  | case1 => cases h
  | case2 n l names d hf =>
    cases h
    exact .arrived (follows_of_follow hf)
  | case3 => cases h
  | case4 => cases h
  | case5 l names d target rest n hf htarget ih =>
    exact .link (follows_of_follow hf) (by simpa using htarget) (ih h)

theorem walk_eq_ok_iff : t.walk n l names = .ok l' ↔ Walks t n l names l' :=
  ⟨walks_of_walk, Walks.walk_eq⟩

theorem Walks.mono (ht : Extends t t') (h : Walks t n l names l') : Walks t' n l names l' := by
  induction h with
  | arrived h => exact .arrived (h.mono ht)
  | link h htarget _ ih => exact .link (h.mono ht) htarget ih

theorem Walks.append (h : Walks t n l names d) (h' : Follows t d names' (.arrived l')) :
    Walks t n l (names ++ names') l' := by
  induction h with
  | arrived h => exact .arrived (h.append h')
  | link h htarget _ ih =>
    refine .link (h.link_append names') htarget ?_
    rw [← List.append_assoc]
    exact ih h'

theorem Walks.of_append_self (h : Walks t n l (names ++ [['.']]) d) : Walks t n l names d := by
  generalize hns : names ++ [['.']] = ns at h
  induction h generalizing names with
  | arrived h =>
    subst hns
    rcases h.of_append_self with ⟨_, hs, hf⟩ | ⟨_, _, _, hs, _⟩
    · cases hs
      exact .arrived hf
    · cases hs
  | link h htarget _ ih =>
    subst hns
    rcases h.of_append_self with ⟨_, hs, _⟩ | ⟨_, _, _, hs, hf⟩
    · cases hs
    · cases hs
      exact .link hf htarget (ih (List.append_assoc _ _ _))

theorem Walks.insert_self (hrest : rest ≠ []) (h : Walks t n l (names ++ rest) d) :
    Walks t n l (names ++ ['.'] :: rest) d := by
  generalize hns : names ++ rest = ns at h
  induction h generalizing names with
  | arrived h =>
    subst hns
    rcases h.insert_self hrest with hf | ⟨_, _, _, hs, _⟩
    · exact .arrived hf
    · cases hs
  | link h htarget hw ih =>
    subst hns
    rcases h.insert_self hrest with hf | ⟨_, _, _, hs, hf⟩
    · exact .link hf htarget hw
    · cases hs
      refine .link hf htarget ?_
      rw [← List.append_assoc]
      exact ih (List.append_assoc _ _ _)

/-! ## Paths -/

theorem resolve_eq_ok_iff : t.resolve p = .ok l ↔
    checkPath p = .ok () ∧ Walks t maxLinks (origin t.working p) (steps p) l := by
  rw [resolve, ← walk_eq_ok_iff]
  cases checkPath p with
  | error e => simp [Except.bind]
  | ok => simp [Except.bind]

/-- A slash at the end of a path does not change where it leads. -/
theorem walks_names_of_resolve (h : t.resolve p = .ok l) :
    Walks t maxLinks (origin t.working p) (Path.names p) l := by
  have hw := (resolve_eq_ok_iff.mp h).2
  rw [steps] at hw
  split at hw
  · exact hw.of_append_self
  · rwa [List.append_nil] at hw

theorem resolve_mono (ht : Extends t t') (h : t.resolve p = .ok l) : t'.resolve p = .ok l := by
  obtain ⟨hp, hw⟩ := resolve_eq_ok_iff.mp h
  refine resolve_eq_ok_iff.mpr ⟨hp, ?_⟩
  rw [ht.working]
  exact hw.mono ht

theorem readText_eq_ok_iff {s : Text} : t.readText p = .ok s ↔
    ∃ l, t.resolve p = .ok l ∧ t.lookup l = some (.file (some s)) := by
  rw [readText]
  cases t.resolve p with
  | error e => simp [Except.bind]
  | ok l =>
    simp only [Except.bind]
    split
    · next text hl => simp [hl]
    · next hl => simp [hl]
    · next hfile hnone => simpa using hfile s

/-! ## Same trees -/

theorem follow_congr (h : Same t t') (l : Location) (names : List Text) :
    t.follow l names = t'.follow l names := by
  induction names generalizing l with
  | nil => rfl
  | cons name rest ih => simp only [follow, h.lookup, ih]

theorem walk_congr (h : Same t t') (n : Nat) (l : Location) (names : List Text) :
    t.walk n l names = t'.walk n l names := by
  induction n generalizing l names with
  | zero =>
    rw [walk.eq_def, walk.eq_def, follow_congr h]
    rcases t'.follow l names with _ | _ | _ <;> rfl
  | succ n ih =>
    rw [walk.eq_def, walk.eq_def, follow_congr h]
    rcases t'.follow l names with _ | _ | _
    · rfl
    · rfl
    · simp only [ih]

theorem resolve_congr (h : Same t t') (p : Path) : t.resolve p = t'.resolve p := by
  simp only [resolve, h.working, walk_congr h]

theorem readText_congr (h : Same t t') (p : Path) : t.readText p = t'.readText p := by
  simp only [readText, resolve_congr h, h.lookup]

end Typings.FileTree
