import Typings.Proofs.Text.Line

/-!
# Stretches of a text

A stretch is a part of a text in its place.  What stretches of a text have to do with each other, they
have to do with each other in every text that this text is part of (`Stretch.within`).
-/

namespace Typings.Text

variable {s s' t a a' b b' : Text}

/-- A part of a text in its place, between what stands in front of it and what follows it. -/
structure Stretch (s : Text) where
  before : Text
  text : Text
  behind : Text
  eq : s = before ++ text ++ behind

namespace Stretch

/-- The first stretch has ended where the second one starts. -/
def Precedes (x y : Stretch s) : Prop := x.before ++ x.text <+: y.before

/-- The first stretch lies within the second one. -/
structure LiesIn (x y : Stretch s) : Prop where
  start : y.before <+: x.before
  stop : x.before ++ x.text <+: y.before ++ y.text

/-- The stretch is a line of the text: whole lines stand in front of it, and it is the first line of
what is left behind them. -/
structure IsLine (l : Stretch s) : Prop where
  start : WholeLines l.before
  text : l.text ∈ (lines (l.text ++ l.behind)).head?

/-- All of a text. -/
def whole (s : Text) : Stretch s := ⟨[], s, [], (List.append_nil s).symm⟩

/-- A stretch of a text in a text that this one is part of. -/
def within (e : s' = a ++ s ++ b) (x : Stretch s) : Stretch s' :=
  ⟨a ++ x.before, x.text, x.behind ++ b, e.trans <| by
    conv_lhs => rw [x.eq]
    simp only [List.append_assoc]⟩

variable {x y l : Stretch s}

@[simp] theorem text_within (e : s' = a ++ s ++ b) (x : Stretch s) :
    (x.within e).text = x.text := rfl

theorem before_within (e : s' = a ++ s ++ b) (x : Stretch s) :
    (x.within e).before = a ++ x.before := rfl

theorem Precedes.within (h : x.Precedes y) (e : s' = a ++ s ++ b) :
    (x.within e).Precedes (y.within e) := by
  rw [Precedes, before_within, before_within, List.append_assoc]
  exact (List.prefix_append_right_inj a).mpr h

theorem LiesIn.within (h : x.LiesIn y) (e : s' = a ++ s ++ b) :
    (x.within e).LiesIn (y.within e) where
  start := (List.prefix_append_right_inj a).mpr h.start
  stop := by
    rw [before_within, before_within, List.append_assoc, List.append_assoc]
    exact (List.prefix_append_right_inj a).mpr h.stop

theorem liesIn_whole (x : Stretch s) : x.LiesIn (whole s) where
  start := List.nil_prefix
  stop := by
    conv_rhs => rw [whole, List.nil_append, x.eq]
    exact List.prefix_append _ _

/-- Stretches of texts that follow each other follow each other. -/
theorem precedes_within (x : Stretch s) (y : Stretch t) (e : s' = a ++ s ++ b)
    (e' : s' = a' ++ t ++ b') (h : a ++ s <+: a') : (x.within e).Precedes (y.within e') := by
  have hx : a ++ x.before ++ x.text <+: a ++ s := by
    conv_rhs => rw [x.eq]
    exact ⟨x.behind, by simp only [List.append_assoc]⟩
  exact (hx.trans h).trans (List.prefix_append a' y.before)

/-- The first line of a text is a line of it. -/
theorem isLine_first {line rest : Text} {ls : List Text} (e : s = [] ++ line ++ rest)
    (h : lines s = line :: ls) : ((whole line).within e).IsLine where
  start := .inl rfl
  text := by
    have hs : line ++ ([] ++ rest) = s := e.symm
    change line ∈ (lines (line ++ ([] ++ rest))).head?
    rw [hs, h]
    rfl

/-- Among the lines of the text a line stands behind those of the part in front of it. -/
theorem IsLine.exists_lines_eq (h : l.IsLine) :
    ∃ rest, lines s = lines l.before ++ l.text :: rest := by
  obtain ⟨rest, hrest⟩ := List.head?_eq_some_iff.mp h.text
  refine ⟨rest, ?_⟩
  calc lines s = lines (l.before ++ (l.text ++ l.behind)) := by
        rw [← List.append_assoc, ← l.eq]
    _ = lines l.before ++ lines (l.text ++ l.behind) := h.start.lines_append _
    _ = lines l.before ++ l.text :: rest := by rw [hrest]

/-- A text with a line is not empty. -/
theorem IsLine.ne_nil (h : l.IsLine) : s ≠ [] := by
  intro hs
  have hnil : l.text ++ l.behind = [] := by
    have e := hs.symm.trans l.eq
    rw [List.append_assoc] at e
    exact (List.append_eq_nil_iff.mp e.symm).2
  have htext := h.text
  rw [hnil] at htext
  cases htext

/-- Behind whole lines a line is a line. -/
theorem IsLine.within (h : l.IsLine) (e : s' = a ++ s ++ []) (ha : WholeLines a) :
    (l.within e).IsLine where
  start := ha.append h.start
  text := by
    change l.text ∈ (lines (l.text ++ (l.behind ++ []))).head?
    rw [List.append_nil]
    exact h.text

end Stretch

end Typings.Text
