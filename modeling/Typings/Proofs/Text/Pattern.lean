import Typings.Proofs.Text.Word

/-!
# Patterns

A pattern describes a stretch of a text, and its groups name parts of that stretch.  There may be
many ways to match it.  They are listed in order of preference (`Pattern.ends`), a longer repetition
in front of a shorter one, so that a match that goes wrong later is tried again with less; the match
is the first way at the first place that has one (`Pattern.find?`).  What comes behind a repetition
often settles how long it is (`runs_flatMap`).
-/

namespace Typings.Text

/-- The patterns that repeat no more than single characters. -/
inductive Pattern where
  /-- The start of the text. -/
  | start
  /-- A place with a word character on one side only. -/
  | boundary
  | one (accepts : Char → Bool)
  /-- As many characters as possible, and fewer if need be. -/
  | many (accepts : Char → Bool)
  | seq (first second : Pattern)
  | group (number : Nat) (body : Pattern)

namespace Pattern

/-- A place in a text, and the groups on the way to it, the last one first. -/
structure Place where
  before : Text
  rest : Text
  groups : List (Nat × Text)
deriving DecidableEq, Repr

def Place.isBoundary (p : Place) : Bool :=
  p.before.getLast?.any isWordChar != p.rest.head?.any isWordChar

/-- The places behind characters of a class, the farthest one first. -/
def runs (accepts : Char → Bool) (groups : List (Nat × Text)) (before : Text) : Text → List Place
  | [] => [⟨before, [], groups⟩]
  | c :: r =>
    (if accepts c then runs accepts groups (before ++ [c]) r else []) ++ [⟨before, c :: r, groups⟩]

/-- The places where a match from this place on may end, in order of preference. -/
def ends : Pattern → Place → List Place
  | .start, p => if p.before.isEmpty then [p] else []
  | .boundary, p => if p.isBoundary then [p] else []
  | .one accepts, ⟨before, c :: r, groups⟩ =>
    if accepts c then [⟨before ++ [c], r, groups⟩] else []
  | .one _, ⟨_, [], _⟩ => []
  | .many accepts, ⟨before, rest, groups⟩ => runs accepts groups before rest
  | .seq e f, p => (ends e p).flatMap (ends f)
  | .group n e, p =>
    (ends e p).map fun q => ⟨q.before, q.rest, (n, q.before.drop p.before.length) :: q.groups⟩

/-- The end of the first match in a text, with what stands in front of the text. -/
def findFrom? (e : Pattern) (before : Text) : Text → Option Place
  | [] => (ends e ⟨before, [], []⟩).head?
  | c :: r => (ends e ⟨before, c :: r, []⟩).head?.or (findFrom? e (before ++ [c]) r)

/-- The groups of the first match in a text. -/
def find? (e : Pattern) (s : Text) : Option (List (Nat × Text)) :=
  (findFrom? e [] s).map Place.groups

variable {accepts : Char → Bool} {groups : List (Nat × Text)} {before r s w : Text} {e : Pattern}
  {k : Place → List Place} {p q : Place}

/-! ## Matches at the start -/

theorem ends_start_seq (e : Pattern) (p : Place) :
    ends (.seq .start e) p = if p.before.isEmpty then ends e p else [] := by
  rw [ends, ends]
  split
  · exact List.flatMap_singleton _ _
  · exact List.flatMap_nil

theorem findFrom?_start_eq_none (h : before ≠ []) (s : Text) :
    findFrom? (.seq .start e) before s = none := by
  have hbefore : ¬ before.isEmpty = true := by simpa using h
  induction s generalizing before with
  | nil => rw [findFrom?, ends_start_seq, if_neg hbefore, List.head?_nil]
  | cons c s ih =>
    rw [findFrom?, ends_start_seq, if_neg hbefore, List.head?_nil, Option.none_or]
    exact ih (by simp) (by simp)

/-- A pattern for the start of a text is tried there only. -/
theorem find?_start_seq (e : Pattern) (s : Text) :
    find? (.seq .start e) s = (ends e ⟨[], s, []⟩).head?.map Place.groups := by
  cases s with
  | nil => rw [find?, findFrom?, ends_start_seq, List.isEmpty_nil, if_pos rfl]
  | cons c s =>
    rw [find?, findFrom?, ends_start_seq, List.isEmpty_nil, if_pos rfl,
      findFrom?_start_eq_none (by simp), Option.or_none]

/-! ## Single characters and groups -/

theorem ends_one_seq_nil (accepts : Char → Bool) (e : Pattern) (before : Text)
    (groups : List (Nat × Text)) : ends (.seq (.one accepts) e) ⟨before, [], groups⟩ = [] := rfl

theorem ends_one_seq_cons (accepts : Char → Bool) (e : Pattern) (before : Text) (c : Char)
    (r : Text) (groups : List (Nat × Text)) :
    ends (.seq (.one accepts) e) ⟨before, c :: r, groups⟩ =
      if accepts c then ends e ⟨before ++ [c], r, groups⟩ else [] := by
  rw [ends, ends]
  split
  · exact List.flatMap_singleton _ _
  · exact List.flatMap_nil

theorem ends_group_seq (n : Nat) (e f : Pattern) (p : Place) :
    ends (.seq (.group n e) f) p = (ends e p).flatMap fun q ↦
      ends f ⟨q.before, q.rest, (n, q.before.drop p.before.length) :: q.groups⟩ := by
  rw [ends, ends, List.flatMap_map]

/-! ## Repetitions -/

theorem runs_of_stops (h : Stops accepts s) :
    runs accepts groups before s = [⟨before, s, groups⟩] := by
  cases s with
  | nil => rfl
  | cons c s => rw [runs, stops_cons.mp h, if_neg Bool.false_ne_true, List.nil_append]

/-- The places farther on come first, and the others stand in front of an accepted character. -/
theorem exists_runs_append (h : ∀ c ∈ w, accepts c = true) (before r : Text) :
    ∃ nearer, runs accepts groups before (w ++ r) =
        runs accepts groups (before ++ w) r ++ nearer ∧
      ∀ p ∈ nearer, ∃ a c t, accepts c = true ∧ p = ⟨a, c :: t, groups⟩ := by
  induction w generalizing before with
  | nil => exact ⟨[], by simp, by simp⟩
  | cons c w ih =>
    obtain ⟨hc, hw⟩ := List.forall_mem_cons.mp h
    obtain ⟨nearer, hruns, hnearer⟩ := ih hw (before ++ [c])
    refine ⟨nearer ++ [⟨before, c :: (w ++ r), groups⟩], ?_, ?_⟩
    · rw [List.cons_append, runs, if_pos hc, hruns, List.append_assoc, List.append_assoc,
        List.singleton_append]
    · intro p hp
      rcases List.mem_append.mp hp with hp | hp
      · exact hnearer p hp
      · exact ⟨before, c, w ++ r, hc, List.mem_singleton.mp hp⟩

/-- A run is all it can be if what follows cannot start in its class. -/
theorem runs_flatMap (hs : ∀ a c t, accepts c = true → k ⟨a, c :: t, groups⟩ = [])
    (before s : Text) :
    (runs accepts groups before s).flatMap k =
      k ⟨before ++ s.takeWhile accepts, s.dropWhile accepts, groups⟩ := by
  have hw : ∀ c ∈ s.takeWhile accepts, accepts c = true := List.all_eq_true.mp List.all_takeWhile
  obtain ⟨nearer, hruns, hnearer⟩ := exists_runs_append hw before (s.dropWhile accepts)
  have hnil : nearer.flatMap k = [] := by
    refine List.flatMap_eq_nil_iff.mpr fun p hp ↦ ?_
    obtain ⟨a, c, t, hc, rfl⟩ := hnearer p hp
    exact hs a c t hc
  rw [List.takeWhile_append_dropWhile, runs_of_stops (stops_dropWhile _ _)] at hruns
  rw [hruns, List.flatMap_append, List.flatMap_singleton, hnil, List.append_nil]

/-- The longest run is preferred if it leads anywhere. -/
theorem head?_runs_flatMap {before s : Text}
    (h : q ∈ (k ⟨before ++ s.takeWhile accepts, s.dropWhile accepts, groups⟩).head?) :
    q ∈ ((runs accepts groups before s).flatMap k).head? := by
  have hw : ∀ c ∈ s.takeWhile accepts, accepts c = true := List.all_eq_true.mp List.all_takeWhile
  obtain ⟨nearer, hruns, -⟩ := exists_runs_append hw before (s.dropWhile accepts)
  rw [List.takeWhile_append_dropWhile, runs_of_stops (stops_dropWhile _ _)] at hruns
  obtain ⟨qs, hqs⟩ := List.head?_eq_some_iff.mp (Option.mem_def.mp h)
  rw [hruns, List.flatMap_append, List.flatMap_singleton, hqs]
  rfl

theorem exists_of_mem_runs (h : p ∈ runs accepts groups before s) :
    ∃ w r, s = w ++ r ∧ p = ⟨before ++ w, r, groups⟩ := by
  induction s generalizing before with
  | nil => exact ⟨[], [], rfl, by simpa [runs] using h⟩
  | cons c s ih =>
    rw [runs] at h
    rcases List.mem_append.mp h with h | h
    · split at h
      · obtain ⟨w, r, rfl, rfl⟩ := ih h
        exact ⟨c :: w, r, rfl, by simp⟩
      · cases h
    · exact ⟨[], c :: s, rfl, by simpa using h⟩

/-! ## Boundaries -/

theorem forall_getLast?_append {P : Char → Prop} (hbefore : ∀ c ∈ before.getLast?, P c)
    (hw : ∀ c ∈ w, P c) : ∀ c ∈ (before ++ w).getLast?, P c := by
  intro c hc
  rw [Option.mem_def, List.getLast?_append] at hc
  rcases Option.or_eq_some_iff.mp hc with hc | ⟨-, hc⟩
  · exact hw c (List.mem_of_getLast? hc)
  · exact hbefore c hc

/-- Where no word goes on there is a boundary if a word has come before. -/
theorem Place.isBoundary_of_stops (h : Stops isWordChar p.rest) :
    p.isBoundary = p.before.getLast?.any isWordChar := by
  rw [isBoundary, (Option.any_eq_false _ _).mpr h, Bool.bne_false]

/-- Among characters that are in no word there is no boundary. -/
theorem runs_flatMap_boundary_eq_nil (hbefore : ∀ c ∈ before.getLast?, isWordChar c = false)
    (hs : ∀ c ∈ s, isWordChar c = false) :
    (runs accepts groups before s).flatMap (ends .boundary) = [] := by
  refine List.flatMap_eq_nil_iff.mpr fun p hp ↦ ?_
  obtain ⟨w, r, rfl, rfl⟩ := exists_of_mem_runs hp
  have hstops : Stops isWordChar r :=
    fun c hc ↦ hs c (List.mem_append_right w (List.mem_of_mem_head? hc))
  have hlast : (before ++ w).getLast?.any isWordChar = false :=
    (Option.any_eq_false _ _).mpr <|
      forall_getLast?_append hbefore fun c hc ↦ hs c (List.mem_append_left r hc)
  rw [ends, Place.isBoundary_of_stops hstops, hlast, if_neg Bool.false_ne_true]

/-- A run up to a boundary ends with the last word. -/
theorem head?_runs_flatMap_boundary (hw : ∀ c ∈ w, accepts c = true)
    (hlast : ∃ c ∈ w.getLast?, isWordChar c = true) (hr : ∀ c ∈ r, isWordChar c = false)
    (before : Text) :
    ((runs accepts groups before (w ++ r)).flatMap (ends .boundary)).head? =
      some ⟨before ++ w, r, groups⟩ := by
  have hboundary : ends .boundary ⟨before ++ w, r, groups⟩ = [⟨before ++ w, r, groups⟩] := by
    have hstops : Stops isWordChar r := fun c hc ↦ hr c (List.mem_of_mem_head? hc)
    obtain ⟨c, hc, hword⟩ := hlast
    have hany : (before ++ w).getLast?.any isWordChar = true :=
      (Option.any_eq_true _ _).mpr ⟨c, List.mem_getLast?_append_of_mem_getLast? hc, hword⟩
    rw [ends, Place.isBoundary_of_stops hstops, hany, if_pos rfl]
  -- The places behind the last word are tried first, and all of them fail.
  have hfarther : ∃ farther, runs accepts groups (before ++ w) r =
      farther ++ [⟨before ++ w, r, groups⟩] ∧ farther.flatMap (ends .boundary) = [] := by
    cases r with
    | nil => exact ⟨[], rfl, rfl⟩
    | cons c r =>
      obtain ⟨hc, hr⟩ := List.forall_mem_cons.mp hr
      refine ⟨_, rfl, ?_⟩
      split
      · exact runs_flatMap_boundary_eq_nil (by simpa using hc) hr
      · rfl
  obtain ⟨nearer, hruns, -⟩ := exists_runs_append hw before r
  obtain ⟨farther, hfarther, hnil⟩ := hfarther
  rw [hruns, hfarther, List.flatMap_append, List.flatMap_append, hnil, List.flatMap_singleton,
    hboundary]
  rfl

end Pattern

end Typings.Text
