import Typings.Page.Row
import Typings.Proofs.Markup.Written

/-!
# Scanning member rows

What one event does to a scan, and from it what a scan does over the events outside member rows
(`run_outside`), over those of a cell (`run_cell`) and over a member row (`run_row`).  A scan does
not see how text is divided into events (`run_joinFrom`).
-/

namespace Typings.Page.Row

open Markup

variable {o : Options} {e : Event} {es es' : List Event} {t t' : Text} {side : Side}

/-- The text that an event adds to a cell. -/
def content : Event → Text
  | .text t => t
  | _ => []

/-- An event that may stand in a cell: text, or a tag that is not one of a row or a cell. -/
def IsInline : Event → Prop
  | .text _ => True
  | .startTag name _ | .endTag name => name ≠ "tr".toList ∧ name ≠ "td".toList

instance : DecidablePred IsInline
  | .text _ => inferInstanceAs (Decidable True)
  | .startTag name _ =>
    inferInstanceAs (Decidable (name ≠ "tr".toList ∧ name ≠ "td".toList))
  | .endTag name => inferInstanceAs (Decidable (name ≠ "tr".toList ∧ name ≠ "td".toList))

namespace Scan

/-- The scan with more text in the open cell, if a cell is open. -/
def addText (t : Text) (s : Scan) : Scan :=
  match s.place with
  | .inside (some side) => s.append side t
  | _ => s

variable {s : Scan} {cell : Option Side}

/-! ## One event -/

@[simp] theorem append_nil (side : Side) (s : Scan) : s.append side [] = s := by
  cases side <;> simp [append]

theorem append_append (side : Side) (s : Scan) (t t' : Text) :
    (s.append side t).append side t' = s.append side (t ++ t') := by
  cases side <;> simp [append]

@[simp] theorem place_append (side : Side) (t : Text) (s : Scan) :
    (s.append side t).place = s.place := by
  cases side <;> rfl

theorem step_of_opens (h : opens o e = true) : s.step o e = (s.openRow, none) := by
  have hs : e.isStartOf "tr".toList = true := (Bool.and_eq_true_iff.mp h).1
  rw [step, if_pos hs, if_pos h]

theorem step_outside (hs : s.place = .outside) (h : opens o e = false) :
    s.step o e = (s, none) := by
  simp [step, hs, h]

theorem step_text (o : Options) (s : Scan) (t : Text) :
    s.step o (.text t) = (s.addText t, none) := by
  rcases s with ⟨_ | _ | side, _, _, _⟩ <;> rfl

@[simp] theorem addText_nil (s : Scan) : s.addText [] = s := by
  rcases s with ⟨_ | _ | side, _, _, _⟩
  · rfl
  · rfl
  · exact append_nil side _

theorem addText_append (s : Scan) (t t' : Text) :
    s.addText (t ++ t') = (s.addText t).addText t' := by
  rcases s with ⟨_ | _ | side, _, _, _⟩
  · rfl
  · rfl
  · cases side <;> simp [addText, append]

/-- Between the cells of a row the start of a cell opens it. -/
theorem step_openCell (hs : s.place = .inside none) (as : List Attribute) :
    s.step o (.startTag "td".toList as) =
      ({ s with place := .inside (side? o (.startTag "td".toList as)) }, none) := by
  simp [step, hs, Event.isStartOf, Event.isEndOf]

theorem isEndOf_eq_false {name : Text} (h : e ≠ .endTag name) : e.isEndOf name = false := by
  cases e with
  | endTag name' => exact beq_eq_false_iff_ne.mpr fun hn ↦ h (hn ▸ rfl)
  | _ => rfl

/-- In a cell only text counts, unless the event ends the cell or the row or starts a member row. -/
theorem step_insideCell (hs : s.place = .inside (some side)) (ho : opens o e = false)
    (htr : e ≠ .endTag "tr".toList) (htd : e ≠ .endTag "td".toList) :
    s.step o e = (s.append side (content e), none) := by
  cases e with
  | text t =>
    rw [step_text, addText, hs]
    rfl
  | startTag name as =>
    rw [step, isEndOf_eq_false htr, ho, hs, content, append_nil]
    · split <;> rfl
    · rintro t ⟨⟩
  | endTag name =>
    rw [step, isEndOf_eq_false htr, ho, hs, content, append_nil]
    · simp only [Event.isStartOf, isEndOf_eq_false htd, Bool.false_eq_true, if_false]
    · rintro t ⟨⟩

theorem step_cell (hs : s.place = .inside (some side)) (he : IsInline e) :
    s.step o e = (s.append side (content e), none) := by
  cases e with
  | text t => exact step_insideCell hs rfl nofun nofun
  | startTag name as =>
    have ho : opens o (.startTag name as) = false := by
      rw [opens, Event.isStartOf, beq_eq_false_iff_ne.mpr he.1, Bool.false_and]
    exact step_insideCell hs ho nofun nofun
  | endTag name =>
    exact step_insideCell hs rfl (fun h ↦ he.1 (Event.endTag.inj h))
      fun h ↦ he.2 (Event.endTag.inj h)

theorem step_closeCell (hs : s.place = .inside (some side)) :
    s.step o (.endTag "td".toList) = ({ s with place := .inside none }, none) := by
  simp [step, hs, Event.isStartOf, Event.isEndOf]

theorem step_closeRow (hs : s.place = .inside cell) : s.step o (.endTag "tr".toList) =
    (⟨.outside, [], [], s.opened⟩,
      some (Initializer.declaration o.spaceShifts s.left s.right)) := by
  simp [step, hs, Event.isStartOf, Event.isEndOf]

/-! ## Sequences of events -/

@[simp] theorem run_nil (o : Options) (s : Scan) : s.run o [] = ([], s) := rfl

theorem run_cons (o : Options) (s : Scan) (e : Event) (es : List Event) : s.run o (e :: es) =
    ((s.step o e).2.toList ++ ((s.step o e).1.run o es).1, ((s.step o e).1.run o es).2) := rfl

theorem run_append (o : Options) (s : Scan) (es es' : List Event) : s.run o (es ++ es') =
    ((s.run o es).1 ++ ((s.run o es).2.run o es').1, ((s.run o es).2.run o es').2) := by
  induction es generalizing s with
  | nil => rfl
  | cons e es ih => simp [run_cons, ih]

theorem feed_cons {σ : Type} (o : Options) (take : σ → Declaration → σ) (consumer : σ) (s : Scan)
    (e : Event) (es : List Event) : s.feed o take consumer (e :: es) =
      (s.step o e).1.feed o take ((s.step o e).2.elim consumer (take consumer)) es := rfl

/-- A consumer is handed the declarations of a scan in order. -/
theorem feed_eq_foldl_run {σ : Type} (o : Options) (take : σ → Declaration → σ) (consumer : σ)
    (s : Scan) (es : List Event) :
    s.feed o take consumer es = ((s.run o es).1.foldl take consumer, (s.run o es).2) := by
  induction es generalizing s consumer with
  | nil => rfl
  | cons e es ih =>
    rw [feed_cons, ih, run_cons, List.foldl_append]
    cases (s.step o e).2 <;> rfl

theorem run_append_congr (h : ∀ s, Scan.run o s es = Scan.run o s es') (s : Scan)
    (es₀ : List Event) : s.run o (es₀ ++ es) = s.run o (es₀ ++ es') := by
  rw [run_append, run_append, h]

theorem run_outside (hs : s.place = .outside) (h : ∀ e ∈ es, opens o e = false) :
    s.run o es = ([], s) := by
  induction es with
  | nil => rfl
  | cons e es ih =>
    rw [List.forall_mem_cons] at h
    rw [run_cons, step_outside hs h.1, ih h.2]
    rfl

theorem run_cell (hs : s.place = .inside (some side)) (h : ∀ e ∈ es, IsInline e) :
    s.run o es = ([], s.append side (es.flatMap content)) := by
  induction es generalizing s with
  | nil => simp
  | cons e es ih =>
    rw [List.forall_mem_cons] at h
    rw [run_cons, step_cell hs h.1, ih (by rw [place_append, hs]) h.2, append_append]
    rfl

/-! ## Text -/

theorem run_text (o : Options) (s : Scan) (t : Text) (es : List Event) :
    s.run o (.text t :: es) = (s.addText t).run o es := by
  rw [run_cons, step_text]
  rfl

/-- Joining texts that touch makes no difference to a scan. -/
theorem run_joinFrom (o : Options) (s : Scan) (p : Text) (es : List (Option Event)) :
    s.run o (joinFrom p es) = s.run o (.text p :: es.reduceOption) := by
  have htext : ∀ s p es, Scan.run o s (textEvents p ++ es) = Scan.run o s (.text p :: es) := by
    intro s p es
    by_cases hp : p = []
    · rw [hp, run_text, addText_nil]
      rfl
    · rw [textEvents_of_ne_nil hp]
      rfl
  induction es generalizing s p with
  | nil =>
    rw [joinFrom, ← List.append_nil (textEvents p), htext]
    rfl
  | cons e es ih =>
    by_cases he : IsText e
    · obtain ⟨t, rfl⟩ := he
      rw [joinFrom, ih, run_text, addText_append, List.reduceOption_cons_of_some, run_text,
        run_text]
    · have ih' : ∀ s, Scan.run o s (joinFrom [] es) = Scan.run o s es.reduceOption := fun s ↦ by
        rw [ih, run_text, addText_nil]
      rw [joinFrom_cons he, run_append_congr ih', List.append_assoc, htext]
      cases e <;> rfl

/-! ## Member rows -/

/-- A cell that opens and closes leaves nothing but its text. -/
theorem closeCell_append (hs : s.place = .inside none) (side : Side) (t : Text) :
    ({ (({ s with place := .inside (some side) } : Scan).append side t) with
      place := .inside none } : Scan) = s.append side t := by
  cases s
  cases hs
  cases side <;> rfl

/-- A cell adds its text to its side, and the row goes on. -/
theorem run_wholeCell {as : List Attribute} (hs : s.place = .inside none)
    (hside : side? o (.startTag "td".toList as) = some side) (h : ∀ e ∈ es, IsInline e)
    (es' : List Event) :
    s.run o (.startTag "td".toList as :: (es ++ .endTag "td".toList :: es')) =
      (s.append side (es.flatMap content)).run o es' := by
  rw [run_cons, step_openCell hs, hside, run_append, run_cell rfl h, run_cons,
    step_closeCell (place_append _ _ _), closeCell_append hs]
  rfl

/-- A member row gives one declaration, of the texts in its two cells, and is forgotten. -/
theorem run_row {row : Event} {as bs : List Attribute} {ls rs : List Event}
    (hrow : opens o row = true) (hl : side? o (.startTag "td".toList as) = some .left)
    (hls : ∀ e ∈ ls, IsInline e) (hr : side? o (.startTag "td".toList bs) = some .right)
    (hrs : ∀ e ∈ rs, IsInline e) (s : Scan) :
    s.run o (row :: .startTag "td".toList as :: (ls ++ .endTag "td".toList ::
      .startTag "td".toList bs :: (rs ++ [.endTag "td".toList, .endTag "tr".toList]))) =
      ([Initializer.declaration o.spaceShifts (ls.flatMap content) (rs.flatMap content)],
        ⟨.outside, [], [], s.opened + 1⟩) := by
  rw [run_cons, step_of_opens hrow, run_wholeCell rfl hl hls, run_wholeCell rfl hr hrs, run_cons,
    step_closeRow rfl]
  rfl

end Scan

end Typings.Page.Row
