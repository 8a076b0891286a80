import Typings.Page
import Typings.Proofs.Page.Grammar

/-!
# What a scan of a page sees

Tags other than those of rows and cells leave a scan as it is, wherever it stands
(`step_of_not_isSeen`), and it makes no difference how text is divided into events.  So events that
have the same `seen` part amount to the same page (`ofEvents_congr_of_seen`).
-/

namespace Typings.Page

open Markup

namespace Row

variable {o : Options} {e : Event} {es es' : List Event}

/-- The event is text, or a tag of a row or of a cell. -/
def IsSeen : Event → Prop
  | .text _ => True
  | .startTag name _ | .endTag name => name = "tr".toList ∨ name = "td".toList

instance : DecidablePred IsSeen
  | .text _ => inferInstanceAs (Decidable True)
  | .startTag name _ => inferInstanceAs (Decidable (name = "tr".toList ∨ name = "td".toList))
  | .endTag name => inferInstanceAs (Decidable (name = "tr".toList ∨ name = "td".toList))

/-- The events without the tags that are not seen, and then with one text in place of texts that
touch, or with none if that text is empty. -/
def seen (es : List Event) : List Event := join ((es.filter (IsSeen ·)).map some)

/-! ## Tags that are not seen -/

theorem isStartOf_eq_false {tag : Text} (h : ¬ IsSeen e) (ht : tag = "tr".toList ∨ tag = "td".toList) :
    e.isStartOf tag = false := by
  cases e with
  | startTag name as =>
    refine beq_eq_false_iff_ne.mpr ?_
    rintro rfl
    exact h ht
  | _ => rfl

theorem ne_endTag {tag : Text} (h : ¬ IsSeen e) (ht : tag = "tr".toList ∨ tag = "td".toList) :
    e ≠ .endTag tag := by
  rintro rfl
  exact h ht

theorem content_eq_nil (h : ¬ IsSeen e) : content e = [] := by
  cases e with
  | text t => exact absurd trivial h
  | _ => rfl

/-- A tag that is not seen is nothing between the cells of a row. -/
theorem isGap_of_not_isSeen (h : ¬ IsSeen e) (o : Options) : IsGap o e := by
  refine isGap_iff.mpr ⟨?_, ne_endTag h (.inl rfl), ?_⟩
  · rw [opens, isStartOf_eq_false h (.inl rfl), Bool.false_and]
  · rw [side?, isStartOf_eq_false h (.inr rfl)]
    rfl

/-- A tag that is not seen is nothing in a cell. -/
theorem isInCell_of_not_isSeen (h : ¬ IsSeen e) (o : Options) : IsInCell o e where
  notRowStart := (isGap_of_not_isSeen h o).notRowStart
  notRowEnd := ne_endTag h (.inl rfl)
  notCellEnd := ne_endTag h (.inr rfl)

namespace Scan

theorem step_of_not_isSeen (h : ¬ IsSeen e) (o : Options) (s : Scan) : s.step o e = (s, none) := by
  cases hs : s.place with
  | outside => exact step_outside hs (opens_of_not_isRowStart (isGap_of_not_isSeen h o).notRowStart)
  | inside cell =>
    cases cell with
    | none => exact step_gap hs (isGap_of_not_isSeen h o)
    | some side =>
      rw [step_inCell hs (isInCell_of_not_isSeen h o), content_eq_nil h, append_nil]

/-! ## Sequences of events -/

theorem run_filter_isSeen (o : Options) (s : Scan) (es : List Event) :
    s.run o (es.filter (IsSeen ·)) = s.run o es := by
  induction es generalizing s with
  | nil => rfl
  | cons e es ih =>
    by_cases he : IsSeen e
    · rw [List.filter_cons_of_pos (by simpa using he), run_cons, ih, run_cons]
    · rw [List.filter_cons_of_neg (by simpa using he), ih, run_cons, step_of_not_isSeen he]
      rfl

/-- A scan runs over events as over what it sees of them. -/
theorem run_seen (o : Options) (s : Scan) (es : List Event) : s.run o (seen es) = s.run o es := by
  have hsome : ((es.filter (IsSeen ·)).map some).reduceOption = es.filter (IsSeen ·) := by
    rw [List.reduceOption, List.filterMap_map]
    exact List.filterMap_some
  rw [seen, join, run_joinFrom, run_text, addText_nil, hsome, run_filter_isSeen]

end Scan

end Row

variable {es es' : List Event}

/-- Two sequences of events of which the same is seen amount to the same page: they give the same
records, have as many rows, and both or neither of them end in an open row. -/
theorem ofEvents_congr_of_seen (h : Row.seen es = Row.seen es') (o : Options) :
    ofEvents o es = ofEvents o es' := by
  rw [ofEvents, ofEvents, ← Row.Scan.run_seen o {} es, h, Row.Scan.run_seen]

/-- Links and breaks, in the cells and around them, and text that comes in pieces, one of them
empty. -/
theorem ofEvents_congr_of_seen_link :
    let row : Event := .startTag "tr".toList [⟨"class".toList, "memitem:x".toList⟩]
    let left : Event := .startTag "td".toList [⟨"class".toList, "memItemLeft".toList⟩]
    let right : Event := .startTag "td".toList [⟨"class".toList, "memItemRight".toList⟩]
    let link : Event := .startTag "a".toList [⟨"class".toList, "memItemLeft".toList⟩]
    let es := [row, link, left, .text "con".toList, link, .text [], .endTag "a".toList,
      .text "st".toList, .endTag "td".toList, .startTag "th".toList [], right,
      .text "A = 1, ".toList, .startTag "br".toList [], .text "B = 2".toList, .endTag "tr".toList,
      .endTag "body".toList, row]
    let es' := [row, left, .text "const".toList, .endTag "td".toList, right,
      .text "A = 1, B = 2".toList, .endTag "tr".toList, row]
    Row.seen es = Row.seen es' ∧ ofEvents {} es = ⟨[⟨"const".toList, "A".toList,
      [⟨"A".toList, "1".toList⟩, ⟨"B".toList, "2".toList⟩]⟩], 2, true⟩ := by
  intro row left right link es es'
  have hseen : Row.seen es = Row.seen es' := by decide
  refine ⟨hseen, ?_⟩
  rw [ofEvents_congr_of_seen hseen]
  decide +kernel

end Typings.Page
