import Typings.Proofs.Page.Row

/-!
# The grammar of member rows

`Alternates` says what the events of a page with closed member rows are, and what a scan has to give
at each of them, without going through a scan.  `trace_of_alternates` says that a scan gives just
that, and that nothing in front of the start of a member row bears on what is given from there on.
-/

namespace Typings.Page.Row

open Markup

variable {o : Options} {e : Event} {es rest : List Event} {side : Side}
variable {cells : List (Side × Text)} {out : List (Option Declaration)}

/-! ## Descriptions -/

/-- The event is a start tag of this name, and the value of its first class is in `p`. -/
def HasClass (tag : Text) (p : Text → Prop) (e : Event) : Prop :=
  ∃ as a, e = .startTag tag as ∧ as.find? (·.name == "class".toList) = some a ∧ p a.value

def IsRowStart (o : Options) : Event → Prop := HasClass "tr".toList (o.rowClass <+: ·)

/-- A class that names both sides is the left one. -/
def IsCellStart (o : Options) : Side → Event → Prop
  | .left => HasClass "td".toList (· = o.leftClass)
  | .right => HasClass "td".toList fun c ↦ c = o.rightClass ∧ c ≠ o.leftClass

/-- An event that may stand between the cells of a row. -/
structure IsGap (o : Options) (e : Event) : Prop where
  notRowStart : ¬ IsRowStart o e
  notRowEnd : e ≠ .endTag "tr".toList
  notCellStart : ∀ side, ¬ IsCellStart o side e

/-- An event that may stand in a cell. Starts of cells may, and so may rows that are no member
rows. -/
structure IsInCell (o : Options) (e : Event) : Prop where
  notRowStart : ¬ IsRowStart o e
  notRowEnd : e ≠ .endTag "tr".toList
  notCellEnd : e ≠ .endTag "td".toList

/-- What stands in a row, with the sides and the texts of its cells. The end of the row may cut off
its last cell. -/
inductive Parts (o : Options) : List Event → List (Side × Text) → Prop
  | nil : Parts o [] []
  | gap {e : Event} {es : List Event} {cells : List (Side × Text)} :
    IsGap o e → Parts o es cells → Parts o (e :: es) cells
  | cell {side : Side} {start : Event} {es rest : List Event} {cells : List (Side × Text)} :
    IsCellStart o side start → (∀ e ∈ es, IsInCell o e) → Parts o rest cells →
      Parts o (start :: (es ++ .endTag "td".toList :: rest)) ((side, es.flatMap content) :: cells)
  | cutOff {side : Side} {start : Event} {es : List Event} :
    IsCellStart o side start → (∀ e ∈ es, IsInCell o e) →
      Parts o (start :: es) [(side, es.flatMap content)]

/-- The texts of the cells of one side, one after the other. -/
def textOf (side : Side) (cells : List (Side × Text)) : Text :=
  (cells.filter (·.1 = side)).flatMap Prod.snd

/-- The declaration of a row with these cells. -/
def declarationOf (o : Options) (cells : List (Side × Text)) : Declaration :=
  Initializer.declaration o.spaceShifts (textOf .left cells) (textOf .right cells)

/-- Nothing is given at any of these events. -/
def silent (es : List Event) : List (Option Declaration) := es.map fun _ ↦ none

/-- The events are closed member rows with fillers around them, and `out` has a place for each
event: the declaration of a row stands at its end, and nothing anywhere else. -/
inductive Alternates (o : Options) : List Event → List (Option Declaration) → Prop
  | filler {fs : List Event} : (∀ e ∈ fs, ¬ IsRowStart o e) → Alternates o fs (silent fs)
  | row {fs parts rest : List Event} {start : Event} {cells : List (Side × Text)}
      {out : List (Option Declaration)} :
    (∀ e ∈ fs, ¬ IsRowStart o e) → IsRowStart o start → Parts o parts cells →
      Alternates o rest out →
        Alternates o (fs ++ start :: (parts ++ .endTag "tr".toList :: rest))
          (silent (fs ++ start :: parts) ++ some (declarationOf o cells) :: out)

theorem textOf_cons (side side' : Side) (t : Text) (cells : List (Side × Text)) :
    textOf side ((side', t) :: cells) = (if side' = side then t else []) ++ textOf side cells := by
  by_cases h : side' = side <;> simp [textOf, h]

/-! ## Tags and their classes -/

theorem opens_iff : opens o e = true ↔ IsRowStart o e := by
  constructor
  · intro h
    cases e with
    | text t => cases h
    | endTag name => cases h
    | startTag name as =>
      rw [opens, Bool.and_eq_true] at h
      obtain ⟨hn, hc⟩ := h
      obtain rfl : name = "tr".toList := eq_of_beq hn
      cases ha : as.find? (·.name == "class".toList) with
      | none =>
        rw [Event.attribute?, ha] at hc
        cases hc
      | some a =>
        rw [Event.attribute?, ha] at hc
        exact ⟨as, a, rfl, ha, List.isPrefixOf_iff_prefix.mp hc⟩
  · rintro ⟨as, a, rfl, ha, hp⟩
    rw [opens, Event.attribute?, ha]
    exact List.isPrefixOf_iff_prefix.mpr hp

theorem opens_of_not_isRowStart (h : ¬ IsRowStart o e) : opens o e = false := by
  rw [← Bool.not_eq_true, opens_iff]
  exact h

theorem isStartOf_startTag (name : Text) (as : List Attribute) :
    (Event.startTag name as).isStartOf name = true := beq_self_eq_true name

theorem side?_startTag {as : List Attribute} {a : Attribute}
    (ha : as.find? (·.name == "class".toList) = some a) :
    side? o (.startTag "td".toList as) =
      if a.value = o.leftClass then some .left
      else if a.value = o.rightClass then some .right else none := by
  rw [side?, if_pos (isStartOf_startTag _ as), Event.attribute?, ha]
  rfl

theorem side?_eq_some_iff : side? o e = some side ↔ IsCellStart o side e := by
  constructor
  · intro h
    cases e with
    | text t => cases h
    | endTag name => cases h
    | startTag name as =>
      by_cases hn : name = "td".toList
      · subst hn
        cases ha : as.find? (·.name == "class".toList) with
        | none =>
          rw [side?, if_pos (isStartOf_startTag _ as), Event.attribute?, ha] at h
          cases h
        | some a =>
          rw [side?_startTag ha] at h
          split at h
          · next hl =>
            cases h
            exact ⟨as, a, rfl, ha, hl⟩
          · next hl =>
            split at h
            · next hr =>
              cases h
              exact ⟨as, a, rfl, ha, hr, hl⟩
            · cases h
      · rw [side?, Event.isStartOf, beq_eq_false_iff_ne.mpr hn] at h
        cases h
  · intro h
    cases side with
    | left =>
      obtain ⟨as, a, rfl, ha, hc⟩ := h
      rw [side?_startTag ha, if_pos hc]
    | right =>
      obtain ⟨as, a, rfl, ha, hc, hl⟩ := h
      rw [side?_startTag ha, if_neg hl, if_pos hc]

theorem isGap_iff : IsGap o e ↔
    opens o e = false ∧ e ≠ .endTag "tr".toList ∧ side? o e = none := by
  rw [← Bool.not_eq_true, opens_iff, Option.eq_none_iff_forall_ne_some]
  simp only [ne_eq, side?_eq_some_iff]
  exact ⟨fun h ↦ ⟨h.notRowStart, h.notRowEnd, h.notCellStart⟩, fun h ↦ ⟨h.1, h.2.1, h.2.2⟩⟩

theorem isInCell_iff : IsInCell o e ↔
    opens o e = false ∧ e ≠ .endTag "tr".toList ∧ e ≠ .endTag "td".toList := by
  rw [← Bool.not_eq_true, opens_iff]
  exact ⟨fun h ↦ ⟨h.notRowStart, h.notRowEnd, h.notCellEnd⟩, fun h ↦ ⟨h.1, h.2.1, h.2.2⟩⟩

instance : DecidablePred (IsRowStart o) := fun _ ↦ decidable_of_iff _ opens_iff

instance : DecidablePred (IsCellStart o side) := fun _ ↦ decidable_of_iff _ side?_eq_some_iff

instance : DecidablePred (IsGap o) := fun _ ↦ decidable_of_iff _ isGap_iff.symm

instance : DecidablePred (IsInCell o) := fun _ ↦ decidable_of_iff _ isInCell_iff.symm

namespace Scan

variable {s : Scan} {t t' : Text} {n : Nat}

/-! ## One event -/

/-- The place of a scan is all that an event between cells can change. -/
theorem step_gap (hs : s.place = .inside none) (h : IsGap o e) : s.step o e = (s, none) := by
  obtain ⟨ho, htr, hside⟩ := isGap_iff.mp h
  have hback : ({ s with place := .inside (side? o e) } : Scan) = s := by
    rw [hside, ← hs]
  rw [step, isEndOf_eq_false htr, ho, hs]
  split
  · rfl
  · exact Prod.ext hback rfl

theorem step_inCell (hs : s.place = .inside (some side)) (h : IsInCell o e) :
    s.step o e = (s.append side (content e), none) := by
  obtain ⟨ho, htr, htd⟩ := isInCell_iff.mp h
  exact step_insideCell hs ho htr htd

theorem step_isCellStart (hs : s.place = .inside none) (h : IsCellStart o side e) :
    s.step o e = ({ s with place := .inside (some side) }, none) := by
  have hside := side?_eq_some_iff.mpr h
  obtain ⟨as, rfl⟩ : ∃ as, e = .startTag "td".toList as := by
    cases side <;> obtain ⟨as, _, rfl, _⟩ := h <;> exact ⟨as, rfl⟩
  rw [step_openCell hs, hside]

/-! ## Event by event -/

/-- What a scan gives at each event. -/
def trace (o : Options) (s : Scan) : List Event → List (Option Declaration)
  | [] => []
  | e :: es => (s.step o e).2 :: (s.step o e).1.trace o es

theorem trace_cons (o : Options) (s : Scan) (e : Event) (es : List Event) :
    s.trace o (e :: es) = (s.step o e).2 :: (s.step o e).1.trace o es := rfl

theorem trace_append (o : Options) (s : Scan) (es es' : List Event) :
    s.trace o (es ++ es') = s.trace o es ++ (s.run o es).2.trace o es' := by
  induction es generalizing s with
  | nil => rfl
  | cons e es ih => rw [List.cons_append, trace_cons, ih, trace_cons, run_cons, List.cons_append]

theorem trace_inCell_append (hs : s.place = .inside (some side)) (h : ∀ e ∈ es, IsInCell o e)
    (rest : List Event) : s.trace o (es ++ rest) =
      silent es ++ (s.append side (es.flatMap content)).trace o rest := by
  induction es generalizing s with
  | nil => simp [silent]
  | cons e es ih =>
    rw [List.forall_mem_cons] at h
    rw [List.cons_append, trace_cons, step_inCell hs h.1,
      ih (by rw [place_append, hs]) h.2, append_append]
    rfl

theorem trace_filler_append (hs : s.place = .outside) (h : ∀ e ∈ es, ¬ IsRowStart o e)
    (rest : List Event) : s.trace o (es ++ rest) = silent es ++ s.trace o rest := by
  induction es with
  | nil => rfl
  | cons e es ih =>
    rw [List.forall_mem_cons] at h
    rw [List.cons_append, trace_cons, step_outside hs (opens_of_not_isRowStart h.1), ih h.2]
    rfl

/-- From between two cells on, a scan is silent up to the end of the row, where it gives a
declaration of what it has and what the cells to come hold. -/
theorem trace_parts_append (hs : s.place = .inside none) (h : Parts o es cells)
    (rest : List Event) : s.trace o (es ++ .endTag "tr".toList :: rest) =
      silent es ++ some (Initializer.declaration o.spaceShifts (s.left ++ textOf .left cells)
          (s.right ++ textOf .right cells)) ::
        (⟨.outside, [], [], s.opened⟩ : Scan).trace o rest := by
  induction h generalizing s with
  | nil =>
    rw [List.nil_append, trace_cons, step_closeRow hs]
    simp [silent, textOf]
  | gap he _ ih =>
    rw [List.cons_append, trace_cons, step_gap hs he, ih hs]
    rfl
  | @cell side start es parts cells hstart hes _ ih =>
    have hopen : ({ s with place := .inside (some side) } : Scan).place = .inside (some side) := rfl
    rw [List.cons_append, trace_cons, step_isCellStart hs hstart, List.append_assoc,
      trace_inCell_append hopen hes, List.cons_append, trace_cons,
      step_closeCell (place_append _ _ _), closeCell_append hs, ih (by rw [place_append, hs]),
      textOf_cons, textOf_cons]
    cases side <;> simp [silent, append]
  | @cutOff side start es hstart hes =>
    have hopen : ({ s with place := .inside (some side) } : Scan).place = .inside (some side) := rfl
    rw [List.cons_append, trace_cons, step_isCellStart hs hstart, trace_inCell_append hopen hes,
      trace_cons, step_closeRow (place_append _ _ _), textOf_cons, textOf_cons]
    cases side <;> simp [silent, append, textOf]

/-- The number of rows opened so far has no bearing on what a scan does. -/
theorem step_opened (o : Options) (s : Scan) (n : Nat) (e : Event) :
    ({ s with opened := s.opened + n } : Scan).step o e =
      ({ (s.step o e).1 with opened := (s.step o e).1.opened + n }, (s.step o e).2) := by
  by_cases htr : e.isStartOf "tr".toList = true
  · rw [step, if_pos htr, step, if_pos htr]
    cases opens o e
    · rfl
    · simp [openRow, Nat.add_right_comm]
  · rw [step, if_neg htr, step, if_neg htr]
    rcases s with ⟨_ | cell, left, right, opened⟩
    · rfl
    · cases e.isEndOf "tr".toList with
      | true => rfl
      | false =>
        rcases cell with _ | side
        · rfl
        · cases e with
          | text t => cases side <;> rfl
          | startTag name as => rfl
          | endTag name =>
            simp only [Bool.false_eq_true, if_false]
            split <;> rfl

theorem trace_opened (o : Options) (s : Scan) (n : Nat) (es : List Event) :
    ({ s with opened := s.opened + n } : Scan).trace o es = s.trace o es := by
  induction es generalizing s with
  | nil => rfl
  | cons e es ih => rw [trace_cons, step_opened, ih, trace_cons]

/-- Whatever came before, a member row starts afresh. -/
theorem trace_isRowStart (h : IsRowStart o e) (s : Scan) (es : List Event) :
    s.trace o (e :: es) = none :: (⟨.inside none, [], [], 0⟩ : Scan).trace o es := by
  have hopened := trace_opened o ⟨.inside none, [], [], 0⟩ (s.opened + 1) es
  rw [Nat.zero_add] at hopened
  rw [trace_cons, step_of_opens (opens_iff.mpr h), ← hopened]
  rfl

theorem length_trace (o : Options) (s : Scan) (es : List Event) :
    (s.trace o es).length = es.length := by
  induction es generalizing s with
  | nil => rfl
  | cons e es ih => rw [trace_cons, List.length_cons, ih, List.length_cons]

theorem drop_trace (o : Options) (s : Scan) (es rest : List Event) :
    (s.trace o (es ++ rest)).drop es.length = (s.run o es).2.trace o rest := by
  rw [trace_append, ← length_trace o s es, List.drop_left]

theorem trace_row_append (hs : s.place = .outside) (hf : ∀ e ∈ es, ¬ IsRowStart o e)
    (hstart : IsRowStart o e) {parts : List Event} (hparts : Parts o parts cells)
    (rest : List Event) : s.trace o (es ++ e :: (parts ++ .endTag "tr".toList :: rest)) =
      silent (es ++ e :: parts) ++ some (declarationOf o cells) ::
        (⟨.outside, [], [], s.opened + 1⟩ : Scan).trace o rest := by
  have hopen : s.openRow.place = .inside none := rfl
  rw [trace_filler_append hs hf, trace_cons, step_of_opens (opens_iff.mpr hstart),
    trace_parts_append hopen hparts]
  simp [silent, openRow, declarationOf]

theorem trace_of_alternates (h : Alternates o es out) (hs : s.place = .outside) :
    s.trace o es = out := by
  induction h generalizing s with
  | filler hf => simpa [trace] using trace_filler_append hs hf []
  | row hf hstart hparts _ ih => rw [trace_row_append hs hf hstart hparts, ih rfl]

/-- A scan gives exactly one declaration for each closed member row, at its end, and whatever comes
before the start of a member row has no bearing on what is given from there on. -/
theorem trace_rows (o : Options) :
    (∀ es out, Alternates o es out → Scan.trace o {} es = out) ∧
      ∀ before before' start rest, IsRowStart o start →
        (Scan.trace o {} (before ++ start :: rest)).drop before.length =
          (Scan.trace o {} (before' ++ start :: rest)).drop before'.length := by
  refine ⟨fun es out h ↦ trace_of_alternates h rfl, fun before before' start rest h ↦ ?_⟩
  rw [drop_trace, drop_trace]
  rw [trace_isRowStart h, trace_isRowStart h]

/-- Cells may hold starts of cells and of other rows, and the last one need not be closed. -/
theorem trace_rows_nested :
    Scan.trace {} {} [.text "a".toList, .startTag "tr".toList [],
      .startTag "tr".toList [⟨"class".toList, "memitem:x".toList⟩], .text "b".toList,
      .startTag "td".toList [⟨"class".toList, "memItemLeft".toList⟩], .text "int".toList,
      .startTag "td".toList [], .startTag "tr".toList [], .endTag "td".toList, .text "c".toList,
      .startTag "td".toList [⟨"class".toList, "memItemRight".toList⟩], .text "A = 1".toList,
      .endTag "tr".toList, .endTag "table".toList] =
      List.replicate 12 none ++
        [some ⟨"int".toList, "A".toList, [⟨"A".toList, "1".toList⟩]⟩, none] := by
  have hright : Parts {} (.startTag "td".toList [⟨"class".toList, "memItemRight".toList⟩] ::
      [.text "A = 1".toList]) [(.right, "A = 1".toList)] := .cutOff (by decide) (by decide)
  have hleft : Parts {} (.startTag "td".toList [⟨"class".toList, "memItemLeft".toList⟩] ::
      ([.text "int".toList, .startTag "td".toList [], .startTag "tr".toList []] ++
        .endTag "td".toList :: .text "c".toList :: _)) ((.left, "int".toList) :: _) :=
    .cell (by decide) (by decide) (.gap (by decide) hright)
  have hfiller : Alternates {} [.endTag "table".toList] [none] := .filler (by decide)
  have hrow : Alternates {} ([.text "a".toList, .startTag "tr".toList []] ++
      .startTag "tr".toList [⟨"class".toList, "memitem:x".toList⟩] ::
        (.text "b".toList :: _ ++ .endTag "tr".toList :: _)) _ :=
    .row (by decide) (by decide) (.gap (by decide) hleft) hfiller
  exact (trace_rows {}).1 _ _ hrow

end Scan

end Typings.Page.Row
