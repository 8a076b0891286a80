import Typings.Page
import Typings.Proofs.Markup.Returns
import Typings.Proofs.Page.Grammar

/-!
# Line ends on reference pages

Two scans over documents that differ in carriage returns at the ends of lines go the same way and
hold cells that differ in no more than that (`SameScan.step`, `SameScan.run`), and from such cells
comes the same declaration (`declaration_eq_of_returned`).  So it makes no difference to a page how
its lines end (`parse_withReturns`).
-/

namespace Typings.Page

open Text Markup

variable {o : Options} {e f : Event} {es fs : List Event} {s t left left' right right' : Text}

/-- No end of a line is in a class that tells member rows and their cells from others. -/
def Options.HasPlainClasses (o : Options) : Prop :=
  ∀ w ∈ [o.rowClass, o.leftClass, o.rightClass], '\r' ∉ w ∧ '\n' ∉ w

instance (o : Options) : Decidable o.HasPlainClasses :=
  inferInstanceAs (Decidable (∀ w ∈ [o.rowClass, o.leftClass, o.rightClass], '\r' ∉ w ∧ '\n' ∉ w))

/-! ## Cells -/

namespace Initializer

theorem members_eq_of_returned (spaceShifts : Bool) (h : Returned s t) :
    members spaceShifts t = members spaceShifts s := by
  -- the constants of a line are read off it without the blanks at its ends
  have hmembers : ∀ cell, members spaceShifts cell = ((lines cell).map trim).flatMap fun line ↦
      (segments (listPart line)).filterMap fun segment ↦ member? spaceShifts (trim segment) := by
    intro cell
    rw [List.flatMap_map]
    rfl
  rw [hmembers, hmembers, h.map_trim_lines]

theorem declaration_eq_of_returned (spaceShifts : Bool) (hl : Returned left left')
    (hr : Returned right right') :
    declaration spaceShifts left' right' = declaration spaceShifts left right := by
  rw [declaration, declaration, hl.firstWord_eq, hr.firstWord_eq,
    members_eq_of_returned spaceShifts hr]

end Initializer

/-! ## Tags -/

namespace Row

theorem rel_attribute? (name : Text) (h : SameEvent e f) :
    Option.Rel Returned (e.attribute? name) (f.attribute? name) := by
  cases h with
  | @startTag _ as bs h =>
    induction h with
    | nil => exact .none
    | @cons a b as bs hab _ ih =>
      rw [Event.attribute?, Event.attribute?, List.find?_cons, List.find?_cons, hab.name]
      cases a.name == name with
      | true => exact .some hab.value
      | false => exact ih
  | endTag => exact .none
  | text => exact .none

theorem isStartOf_eq (name : Text) (h : SameEvent e f) : f.isStartOf name = e.isStartOf name := by
  cases h <;> rfl

theorem isEndOf_eq (name : Text) (h : SameEvent e f) : f.isEndOf name = e.isEndOf name := by
  cases h <;> rfl

theorem opens_eq (ho : o.HasPlainClasses) (h : SameEvent e f) : opens o f = opens o e := by
  obtain ⟨hr, hn⟩ := ho o.rowClass (by simp)
  have hclass := rel_attribute? "class".toList h
  rw [opens, opens, isStartOf_eq _ h]
  generalize e.attribute? "class".toList = x at hclass
  generalize f.attribute? "class".toList = y at hclass
  cases hclass with
  | none => rfl
  | some hclass => simp only [hclass.isPrefixOf_eq hr hn]

theorem side?_eq (ho : o.HasPlainClasses) (h : SameEvent e f) : side? o f = side? o e := by
  have hleft : '\n' ∉ o.leftClass := (ho o.leftClass (by simp)).2
  have hright : '\n' ∉ o.rightClass := (ho o.rightClass (by simp)).2
  have hclass := rel_attribute? "class".toList h
  rw [side?, side?, isStartOf_eq _ h]
  generalize e.attribute? "class".toList = x at hclass
  generalize f.attribute? "class".toList = y at hclass
  cases hclass with
  | none => rfl
  | some hclass => simp only [hclass.eq_iff hleft, hclass.eq_iff hright]

/-! ## Scans -/

/-- The scans stand at the same place, and their cells differ at the ends of lines. -/
structure SameScan (a b : Scan) : Prop where
  place : b.place = a.place
  opened : b.opened = a.opened
  left : Returned a.left b.left
  right : Returned a.right b.right

namespace SameScan

variable {a b : Scan}

theorem append (h : SameScan a b) (side : Side) (ht : Returned s t) :
    SameScan (a.append side s) (b.append side t) := by
  cases side with
  | left => exact { h with left := h.left.append ht }
  | right => exact { h with right := h.right.append ht }

theorem openRow (h : SameScan a b) : SameScan a.openRow b.openRow :=
  ⟨rfl, congrArg (· + 1) h.opened, .nil, .nil⟩

theorem moveTo (h : SameScan a b) (place : Place) :
    SameScan { a with place := place } { b with place := place } :=
  { h with place := rfl }

/-- The scans go on side by side, and a row that closes gives the same declaration. -/
theorem step (ho : o.HasPlainClasses) (h : SameScan a b) (he : SameEvent e f) :
    SameScan (a.step o e).1 (b.step o f).1 ∧ (b.step o f).2 = (a.step o e).2 := by
  rw [Scan.step, Scan.step, isStartOf_eq _ he, isEndOf_eq _ he, opens_eq ho he, side?_eq ho he,
    h.place]
  cases hstart : e.isStartOf "tr".toList with
  | true =>
    cases opens o e with
    | true => exact ⟨h.openRow, rfl⟩
    | false => exact ⟨h, rfl⟩
  | false =>
    rcases hplace : a.place with _ | cell
    · exact ⟨h, rfl⟩
    · cases e.isEndOf "tr".toList with
      | true =>
        have hdeclaration := Initializer.declaration_eq_of_returned o.spaceShifts h.left h.right
        exact ⟨⟨rfl, h.opened, .nil, .nil⟩, congrArg some hdeclaration⟩
      | false =>
        rcases cell with _ | side
        · exact ⟨h.moveTo _, rfl⟩
        · cases he with
          | text ht => exact ⟨h.append side ht, rfl⟩
          | startTag => exact ⟨h, rfl⟩
          | endTag name =>
            cases htd : (Event.endTag name).isEndOf "td".toList with
            | true => exact ⟨h.moveTo _, rfl⟩
            | false => exact ⟨h, rfl⟩

theorem run (ho : o.HasPlainClasses) (h : SameScan a b) (hes : List.Forall₂ SameEvent es fs) :
    (b.run o fs).1 = (a.run o es).1 ∧ SameScan (a.run o es).2 (b.run o fs).2 := by
  induction hes generalizing a b with
  | nil => exact ⟨rfl, h⟩
  | cons he _ ih =>
    obtain ⟨hstep, hgiven⟩ := h.step ho he
    obtain ⟨hrecords, hlast⟩ := ih hstep
    rw [Scan.run_cons, Scan.run_cons, hgiven, hrecords]
    exact ⟨rfl, hlast⟩

end SameScan

end Row

/-! ## Pages -/

theorem parse_of_returned (ho : o.HasPlainClasses) (h : Returned s t) : parse o t = parse o s := by
  have hstart : Row.SameScan {} {} := ⟨rfl, rfl, .nil, .nil⟩
  obtain ⟨hrecords, hlast⟩ := hstart.run ho (events_of_returned h)
  simp only [parse, ofEvents, Row.Scan.inRow, hrecords, hlast.opened, hlast.place]

/-- A page amounts to the same with a carriage return in front of each line feed, be it in a tag, in
a value, in a script or in a cell, unless the classes of rows and cells are about ends of lines. -/
theorem parse_withReturns (ho : o.HasPlainClasses) (markup : Text) :
    parse o (withReturns markup) = parse o markup :=
  parse_of_returned ho (returned_withReturns markup)

/-- Lines end in tags, in a value, in a comment, in a script and in cells. -/
theorem parse_withReturns_enum :
    let markup := "<tr\nclass='memitem:x\ny'><td class=memItemLeft\n>\nenum</td\n>".toList ++
      "<!--\n<tr>--><script>\n</tr></script><td class=memItemRight>A\n\x7b\n".toList ++
      "B = 1 |\nC = 2,\n D = 3\n</td></tr\n>".toList
    Options.HasPlainClasses {} ∧ parse {} (withReturns markup) = parse {} markup ∧
      parse {} markup = ⟨[⟨"enum".toList, "A".toList, [⟨"B".toList, "1".toList⟩,
        ⟨"C".toList, "2".toList⟩, ⟨"D".toList, "3".toList⟩]⟩], 1, false⟩ := by
  intro markup
  have ho : Options.HasPlainClasses {} := by decide
  exact ⟨ho, parse_withReturns ho markup, by decide +kernel⟩

end Typings.Page
