import Typings.Page
import Typings.Proofs.Markup.Local
import Typings.Proofs.Page.Grammar

/-!
# Pages that are put together

Outside member rows a scan remembers no more than how many rows it has seen (`run_of_outside`).  So a
page that ends outside rows, and leaves no markup open, is read by itself, and what follows it is
read as another page (`parse_append`).
-/

namespace Typings.Page

open Markup

namespace Row.Scan

variable {o : Options} {s : Scan} {e : Event} {es : List Event}

theorem run_opened (o : Options) (s : Scan) (n : Nat) (es : List Event) :
    ({ s with opened := s.opened + n } : Scan).run o es =
      ((s.run o es).1, { (s.run o es).2 with opened := (s.run o es).2.opened + n }) := by
  induction es generalizing s with
  | nil => rfl
  | cons e es ih => rw [run_cons, step_opened, ih, run_cons]

/-- Outside member rows a scan holds no text. -/
def IsClear (s : Scan) : Prop := s.place = .outside → s.left = [] ∧ s.right = []

theorem isClear_of_inside {cell : Option Side} (h : s.place = .inside cell) : s.IsClear := by
  intro hs
  rw [h] at hs
  cases hs

theorem IsClear.step (h : s.IsClear) (o : Options) (e : Event) : (s.step o e).1.IsClear := by
  rw [Scan.step]
  split
  · split
    · exact isClear_of_inside rfl
    · exact h
  · split
    · exact h
    · next cell hcell =>
      split
      · exact fun _ ↦ ⟨rfl, rfl⟩
      · split
        · exact isClear_of_inside rfl
        · split
          · exact isClear_of_inside ((place_append _ _ s).trans hcell)
          · split
            · exact isClear_of_inside rfl
            · exact h

theorem IsClear.run (h : s.IsClear) (o : Options) (es : List Event) :
    (s.run o es).2.IsClear := by
  induction es generalizing s with
  | nil => exact h
  | cons e es ih => exact ih (h.step o e)

/-- A scan goes on outside member rows as one that starts there. -/
theorem run_of_outside (hs : s.place = .outside) (h : s.IsClear) (o : Options) (es : List Event) :
    s.run o es = ((Scan.run o {} es).1,
      { (Scan.run o {} es).2 with opened := (Scan.run o {} es).2.opened + s.opened }) := by
  rw [← run_opened]
  obtain ⟨hleft, hright⟩ := h hs
  obtain ⟨place, left, right, opened⟩ := s
  subst hs hleft hright
  rw [Nat.zero_add]

end Row.Scan

theorem ofEvents_append (o : Options) {es : List Event} (h : (ofEvents o es).endsInRow = false)
    (es' : List Event) : ofEvents o (es ++ es') =
      ⟨(ofEvents o es).records ++ (ofEvents o es').records,
        (ofEvents o es).rowsSeen + (ofEvents o es').rowsSeen, (ofEvents o es').endsInRow⟩ := by
  have hclear := (show Row.Scan.IsClear {} from fun _ ↦ ⟨rfl, rfl⟩).run o es
  have hplace : (Row.Scan.run o {} es).2.place = .outside := by
    cases hp : (Row.Scan.run o {} es).2.place with
    | outside => rfl
    | inside cell => simp [ofEvents, Row.Scan.inRow, hp] at h
  simp only [ofEvents]
  rw [Row.Scan.run_append, Row.Scan.run_of_outside hplace hclear, Nat.add_comm]
  rfl

/-- What is said by a closed text, and by markup that follows it, is what each of them says.  If no
member row is open between them, both are read as pages by themselves. -/
theorem parse_append {a b : Text} (ha : Markup.IsClosed a) (hb : b.head? = some '<') :
    events (a ++ b) = events a ++ events b ∧
      ∀ o : Options, (parse o a).endsInRow = false →
        parse o (a ++ b) = ⟨(parse o a).records ++ (parse o b).records,
          (parse o a).rowsSeen + (parse o b).rowsSeen, (parse o b).endsInRow⟩ := by
  have hstops : Text.Stops (· != '<') b := by
    intro c hc
    rw [hb, Option.mem_some_iff] at hc
    rw [← hc]
    rfl
  have hevents := ha.events_append hstops
  refine ⟨hevents, fun o ho ↦ ?_⟩
  rw [parse, hevents]
  exact ofEvents_append o ho (events b)

/-- A comment may hold the start of a row, and a script the end of one. -/
theorem parse_append_script :
    let a := "<script>if (a</tr>b)</SCRIPT><!-- <tr class=memitem:x> --><".toList
    let b := "<tr class='memitem:x'><td class='memItemRight'>A = 1</td></tr>".toList
    events (a ++ b) = events a ++ events b ∧
      parse {} (a ++ b) = ⟨[⟨[], "A".toList, [⟨"A".toList, "1".toList⟩]⟩], 1, false⟩ := by
  intro a b
  have ha : Markup.IsClosed a := by
    rw [Markup.IsClosed]
    decide +kernel
  obtain ⟨hevents, hparse⟩ := parse_append ha (b := b) rfl
  refine ⟨hevents, ?_⟩
  rw [hparse {} (by decide +kernel)]
  decide +kernel

end Typings.Page
