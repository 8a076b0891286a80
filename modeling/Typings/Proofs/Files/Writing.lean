import Typings.Proofs.Files.Walk

/-!
# Writing files

A file is written where there was a file or nothing, at the place that its path then leads to
(`writeText_eq_ok`).
-/

namespace Typings.FileTree

variable {t t' : FileTree} {l d : Location} {names rest : List Text} {s : Text}
variable {text : Option Text} {p target : Path} {stop : Stop} {slash : Bool} {n : Nat}

/-! ## Walking to a file that may not be there -/

/-- A file can be put here. -/
def HasRoom (t : FileTree) (l : Location) : Prop :=
  t.lookup l = none ∨ ∃ text, t.lookup l = some (.file text)

theorem HasRoom.ne_nil (h : HasRoom t l) : l ≠ [] := by
  rintro rfl
  rcases h with h | ⟨text, h⟩ <;> cases h

theorem HasRoom.ne_directory (h : HasRoom t l) : t.lookup l ≠ some .directory := by
  rcases h with h | ⟨text, h⟩ <;> simp [h]

theorem HasRoom.extends (h : HasRoom t l) (text : Option Text) :
    Extends t (t.set l (.file text)) := by
  refine extends_set fun e he ↦ ?_
  rcases h with h | ⟨text', h⟩
  · rw [h] at he
    cases he
  · rw [h] at he
    cases he
    exact ⟨⟨text', rfl⟩, text, rfl⟩

/-- The names lead from `l` to `stop`: a link, or a place with room for a file. A slash behind them
rules out that they end there. -/
inductive FollowsToWrite (t : FileTree) (slash : Bool) : Location → List Text → Stop → Prop
  | self {l : Location} {rest : List Text} {stop : Stop} : t.lookup l = some .directory →
      FollowsToWrite t slash l rest stop → FollowsToWrite t slash l (['.'] :: rest) stop
  | parent {l : Location} {rest : List Text} {stop : Stop} : t.lookup l = some .directory →
      FollowsToWrite t slash l.dropLast rest stop →
        FollowsToWrite t slash l (['.', '.'] :: rest) stop
  | room {l : Location} {name : Text} : slash = false → t.lookup l = some .directory →
      IsPlain name → HasRoom t (l ++ [name]) →
        FollowsToWrite t slash l [name] (.arrived (l ++ [name]))
  | link {l : Location} {name : Text} {rest : List Text} {target : Path} :
      (rest = [] → slash = false) → t.lookup l = some .directory → IsPlain name →
        t.lookup (l ++ [name]) = some (.link target) →
          FollowsToWrite t slash l (name :: rest) (.link l target rest)
  | down {l : Location} {name : Text} {rest : List Text} {stop : Stop} :
      t.lookup l = some .directory → IsPlain name → t.lookup (l ++ [name]) = some .directory →
        FollowsToWrite t slash (l ++ [name]) rest stop →
          FollowsToWrite t slash l (name :: rest) stop

theorem followsToWrite_of_followToWrite (h : t.followToWrite l slash names = .ok stop) :
    FollowsToWrite t slash l names stop := by
  have hend : ∀ {rest : List Text}, ¬ (rest.isEmpty && slash) = true → rest = [] →
      slash = false := by
    rintro rest hslash rfl
    simpa using hslash
  fun_induction followToWrite t l slash names with
  | case1 => cases h
  | case2 => cases h
  | case3 l rest hl ih => exact .self (not_not.mp hl) (ih h)
  | case4 l rest hl _ ih => exact .parent (not_not.mp hl) (ih h)
  | case5 => cases h
  | case6 => cases h
  | case7 l name rest hl hself hparent hslash hlength hnone hrest =>
    obtain rfl := List.isEmpty_iff.mp hrest
    cases h
    exact .room (hend hslash rfl) (not_not.mp hl) ⟨hself, hparent, Nat.not_lt.mp hlength⟩
      (.inl hnone)
  | case8 => cases h
  | case9 l name rest hl hself hparent hslash hlength target he =>
    cases h
    exact .link (hend hslash) (not_not.mp hl) ⟨hself, hparent, Nat.not_lt.mp hlength⟩ he
  | case10 l name rest hl hself hparent hslash hlength he ih =>
    exact .down (not_not.mp hl) ⟨hself, hparent, Nat.not_lt.mp hlength⟩ he (ih h)
  | case11 l name rest hl hself hparent hslash hlength text he hrest =>
    obtain rfl := List.isEmpty_iff.mp hrest
    cases h
    exact .room (hend hslash rfl) (not_not.mp hl) ⟨hself, hparent, Nat.not_lt.mp hlength⟩
      (.inr ⟨text, he⟩)
  | case12 => cases h

theorem FollowsToWrite.follows_link (h : FollowsToWrite t slash l names (.link d target rest)) :
    (rest = [] → slash = false) ∧ Follows t l names (.link d target rest) := by
  generalize hs : Stop.link d target rest = s at h
  induction h with
  | self hl _ ih => exact (ih hs).imp_right (.self hl)
  | parent hl _ ih => exact (ih hs).imp_right (.parent hl)
  | room => cases hs
  | link hslash hl hn he =>
    cases hs
    exact ⟨hslash, .link hl hn he⟩
  | down hl hn he _ ih => exact (ih hs).imp_right (.down hl hn he nofun)

theorem FollowsToWrite.hasRoom (h : FollowsToWrite t slash l names (.arrived d)) :
    slash = false ∧ HasRoom t d := by
  generalize hs : Stop.arrived d = s at h
  induction h with
  | self _ _ ih => exact ih hs
  | parent _ _ ih => exact ih hs
  | room hslash _ _ hroom =>
    cases hs
    exact ⟨hslash, hroom⟩
  | link => cases hs
  | down _ _ _ _ ih => exact ih hs

/-- Once there is a file, the names that led to its place lead to it. -/
theorem FollowsToWrite.follows (h : FollowsToWrite t slash l names (.arrived d))
    (ht : Extends t t') (hfile : t'.lookup d = some (.file text)) :
    Follows t' l names (.arrived d) := by
  generalize hs : Stop.arrived d = s at h
  induction h with
  | self hl _ ih => exact .self (ht.directory _ hl) (ih hs)
  | parent hl _ ih => exact .parent (ht.directory _ hl) (ih hs)
  | room _ hl hn _ =>
    cases hs
    exact .down (ht.directory _ hl) hn hfile nofun .arrived
  | link => cases hs
  | down hl hn he _ ih => exact .down (ht.directory _ hl) hn (ht.directory _ he) nofun (ih hs)

/-- What a walk to a file that is to be written comes to. -/
structure WalksToWrite (t : FileTree) (n : Nat) (l : Location) (slash : Bool) (names : List Text)
    (d : Location) : Prop where
  notSlash : slash = false
  hasRoom : HasRoom t d
  walks : ∀ t' text, Extends t t' → t'.lookup d = some (.file text) → Walks t' n l names d

theorem walksToWrite_of_walkToWrite (h : t.walkToWrite n l slash names = .ok d) :
    WalksToWrite t n l slash names d := by
  fun_induction walkToWrite t n l slash names with
  | case1 => cases h
  | case2 n l slash names d' hf =>
    cases h
    have hf := followsToWrite_of_followToWrite hf
    obtain ⟨hslash, hroom⟩ := hf.hasRoom
    exact ⟨hslash, hroom, fun t' text ht hfile ↦ .arrived (hf.follows ht hfile)⟩
  | case3 => cases h
  | case4 => cases h
  | case5 l slash names l' target rest n hf htarget ih =>
    have hl := (followsToWrite_of_followToWrite hf).follows_link
    have hd := ih h
    have hslash : slash = false := by
      by_cases hrest : rest = []
      · exact hl.1 hrest
      · have := hd.notSlash
        rwa [if_neg (by simpa using hrest)] at this
    refine ⟨hslash, hd.hasRoom, fun t' text ht hfile ↦ ?_⟩
    refine .link (hl.2.mono ht) (by simpa using htarget) ?_
    have hw := hd.walks t' text ht hfile
    rw [steps, List.append_assoc]
    split
    · next hends =>
      -- a slash behind the target rules out that the way ends there
      have hrest : rest ≠ [] := by
        rintro rfl
        have := hd.notSlash
        simp [hends] at this
      exact hw.insert_self hrest
    · exact hw

theorem writeText_eq_ok_iff : t.writeText p s = .ok t' ↔
    checkPath p = .ok () ∧ ∃ l, t.walkToWrite maxLinks (origin t.working p) (Path.endsInSlash p)
      (Path.names p) = .ok l ∧ t' = t.set l (.file (some s)) := by
  rw [writeText]
  cases checkPath p with
  | error e => simp [Except.bind]
  | ok =>
    rw [Except.bind]
    cases t.walkToWrite maxLinks (origin t.working p) (Path.endsInSlash p) (Path.names p) with
    | error e => simp [Except.bind]
    | ok l => simp [Except.bind, eq_comm]

/-- Once there is a file at the place that was walked to, the path leads there. -/
theorem resolve_of_walkToWrite (hp : checkPath p = .ok ())
    (hw : t.walkToWrite maxLinks (origin t.working p) (Path.endsInSlash p) (Path.names p) = .ok l)
    (text : Option Text) : (t.set l (.file text)).resolve p = .ok l := by
  have hwalks := walksToWrite_of_walkToWrite hw
  refine resolve_eq_ok_iff.mpr ⟨hp, ?_⟩
  rw [steps, if_neg (by simp [hwalks.notSlash]), List.append_nil]
  exact hwalks.walks _ _ (hwalks.hasRoom.extends _) (lookup_set_self t hwalks.hasRoom.ne_nil _)

/-- The place of a text that was written had room for it, and its path leads there now. -/
theorem writeText_eq_ok (h : t.writeText p s = .ok t') :
    ∃ l, HasRoom t l ∧ t' = t.set l (.file (some s)) ∧ t'.resolve p = .ok l := by
  obtain ⟨hp, l, hw, rfl⟩ := writeText_eq_ok_iff.mp h
  exact ⟨l, (walksToWrite_of_walkToWrite hw).hasRoom, rfl, resolve_of_walkToWrite hp hw _⟩

/-! ## Same trees -/

/-- The same error, or trees with the same things. -/
inductive SameTrees : Except FileError FileTree → Except FileError FileTree → Prop
  | error (e : FileError) : SameTrees (.error e) (.error e)
  | ok {t t' : FileTree} : Same t t' → SameTrees (.ok t) (.ok t')

theorem SameTrees.eq_error_iff {x x' : Except FileError FileTree} {e : FileError}
    (h : SameTrees x x') : x = .error e ↔ x' = .error e := by
  cases h with
  | error => rfl
  | ok => exact ⟨nofun, nofun⟩

theorem followToWrite_congr (h : Same t t') (l : Location) (slash : Bool) (names : List Text) :
    t.followToWrite l slash names = t'.followToWrite l slash names := by
  induction names generalizing l with
  | nil => rfl
  | cons name rest ih => simp only [followToWrite, h.lookup, ih]

theorem walkToWrite_congr (h : Same t t') (n : Nat) (l : Location) (slash : Bool)
    (names : List Text) : t.walkToWrite n l slash names = t'.walkToWrite n l slash names := by
  induction n generalizing l slash names with
  | zero =>
    rw [walkToWrite.eq_def, walkToWrite.eq_def, followToWrite_congr h]
    rcases t'.followToWrite l slash names with _ | _ | _ <;> rfl
  | succ n ih =>
    rw [walkToWrite.eq_def, walkToWrite.eq_def, followToWrite_congr h]
    rcases t'.followToWrite l slash names with _ | _ | _
    · rfl
    · rfl
    · simp only [ih]

theorem writeText_congr (h : Same t t') (p : Path) (s : Text) :
    SameTrees (t.writeText p s) (t'.writeText p s) := by
  rw [writeText, writeText, h.working, walkToWrite_congr h]
  cases checkPath p with
  | error e => exact .error e
  | ok =>
    rw [Except.bind, Except.bind]
    cases t'.walkToWrite maxLinks (origin t'.working p) (Path.endsInSlash p) (Path.names p) with
    | error e => exact .error e
    | ok l => exact .ok (h.set l _)

end Typings.FileTree
