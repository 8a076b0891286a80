import Typings.Proofs.Page.Append

/-!
# Accounts of member rows

A member row that has started ends in a declaration, is given up when another one starts, or is still
open.  One event keeps the account (`takes_step`), and so it holds after any events, and says which
of them gives a declaration (`accounts`).
-/

namespace Typings.Page.Row

open Markup

variable {o : Options} {e : Event} {es : List Event}

/-! ## Open rows -/

/-- A member row is open after these events: one of them starts it, and none behind that ends a
row. -/
def IsOpenAfter (o : Options) (es : List Event) : Prop :=
  ∃ before start after, es = before ++ start :: after ∧ IsRowStart o start ∧
    .endTag "tr".toList ∉ after

theorem not_isRowStart_endTag (name : Text) : ¬ IsRowStart o (.endTag name) := by
  rintro ⟨as, a, he, -⟩
  cases he

theorem not_isOpenAfter_nil : ¬ IsOpenAfter o [] := by
  rintro ⟨before, start, after, he, -⟩
  simp at he

/-- Only a start opens a row and only an end closes one. -/
theorem isOpenAfter_concat : IsOpenAfter o (es ++ [e]) ↔
    IsRowStart o e ∨ e ≠ .endTag "tr".toList ∧ IsOpenAfter o es := by
  constructor
  · rintro ⟨before, start, after, he, hstart, hafter⟩
    cases after using List.reverseRecOn with
    | nil =>
      obtain ⟨-, hx⟩ := List.append_inj' he rfl
      obtain rfl := List.singleton_inj.mp hx
      exact .inl hstart
    | append_singleton after x =>
      have he' : es ++ [e] = (before ++ start :: after) ++ [x] := by simpa using he
      obtain ⟨rfl, hx⟩ := List.append_inj' he' rfl
      obtain rfl := List.singleton_inj.mp hx
      rw [List.mem_append, List.mem_singleton, not_or] at hafter
      exact .inr ⟨fun h ↦ hafter.2 h.symm, before, start, after, rfl, hstart, hafter.1⟩
  · rintro (hstart | ⟨he, before, start, after, rfl, hstart, hafter⟩)
    · exact ⟨es, e, [], rfl, hstart, List.not_mem_nil⟩
    · refine ⟨before, start, after ++ [e], by simp, hstart, ?_⟩
      rw [List.mem_append, List.mem_singleton, not_or]
      exact ⟨hafter, fun h ↦ he h.symm⟩

namespace Scan

variable {s : Scan}

theorem place_eq_outside_iff : s.place = .outside ↔ s.inRow = false := by
  rcases s with ⟨_ | cell, left, right, opened⟩ <;> simp [inRow]

@[simp] theorem inRow_openRow (s : Scan) : s.openRow.inRow = true := rfl

@[simp] theorem opened_openRow (s : Scan) : s.openRow.opened = s.opened + 1 := rfl

@[simp] theorem inRow_outside (left right : Text) (n : Nat) :
    (⟨.outside, left, right, n⟩ : Scan).inRow = false := rfl

/-! ## One event -/

/-- What an event can do to the rows of a scan: start one, end the open one or leave them alone. -/
inductive Takes (o : Options) (s : Scan) (e : Event) : Scan × Option Declaration → Prop
  | starts : IsRowStart o e → Takes o s e (s.openRow, none)
  | ends : e = .endTag "tr".toList → s.inRow = true →
    Takes o s e (⟨.outside, [], [], s.opened⟩,
      some (Initializer.declaration o.spaceShifts s.left s.right))
  | passes {s' : Scan} : ¬ IsRowStart o e → (e = .endTag "tr".toList → s.inRow = false) →
    s'.inRow = s.inRow → s'.opened = s.opened → Takes o s e (s', none)

theorem takes_between (hs : s.place = .inside none) (hstart : ¬ IsRowStart o e)
    (hend : e ≠ .endTag "tr".toList) : Takes o s e (s.step o e) := by
  have hin : s.inRow = true := by rw [inRow, hs]
  rw [step, opens_of_not_isRowStart hstart, hs, isEndOf_eq_false hend]
  split
  · exact .passes hstart (absurd · hend) rfl rfl
  · exact .passes hstart (absurd · hend) hin.symm rfl

theorem takes_inCell {side : Side} (hs : s.place = .inside (some side))
    (hstart : ¬ IsRowStart o e) (hend : e ≠ .endTag "tr".toList) : Takes o s e (s.step o e) := by
  have hin : s.inRow = true := by rw [inRow, hs]
  by_cases htd : e = .endTag "td".toList
  · subst htd
    rw [step_closeCell hs]
    exact .passes hstart (absurd · hend) hin.symm rfl
  · rw [step_insideCell hs (opens_of_not_isRowStart hstart) hend htd]
    refine .passes hstart (absurd · hend) ?_ ?_
    · rw [inRow, inRow, place_append]
    · cases side <;> rfl

theorem takes_step (o : Options) (s : Scan) (e : Event) : Takes o s e (s.step o e) := by
  by_cases hstart : IsRowStart o e
  · rw [step_of_opens (opens_iff.mpr hstart)]
    exact .starts hstart
  · cases hs : s.place with
    | outside =>
      rw [step_outside hs (opens_of_not_isRowStart hstart)]
      exact .passes hstart (fun _ ↦ place_eq_outside_iff.mp hs) rfl rfl
    | inside cell =>
      by_cases hend : e = .endTag "tr".toList
      · subst hend
        rw [step_closeRow hs]
        exact .ends rfl (by rw [inRow, hs])
      · cases cell with
        | none => exact takes_between hs hstart hend
        | some side => exact takes_inCell hs hstart hend

/-- A declaration is given at the end of the open row and nowhere else. -/
theorem step_ne_none_iff : (s.step o e).2 ≠ none ↔ e = .endTag "tr".toList ∧ s.inRow = true := by
  have h := takes_step o s e
  generalize s.step o e = r at h
  cases h with
  | starts hstart =>
    have hend : e ≠ .endTag "tr".toList := fun he ↦ not_isRowStart_endTag _ (he ▸ hstart)
    exact iff_of_false (absurd rfl) fun h ↦ hend h.1
  | ends hend hin => exact iff_of_true nofun ⟨hend, hin⟩
  | passes hstart hend hin hopened =>
    refine iff_of_false (absurd rfl) fun h ↦ ?_
    rw [hend h.1] at h
    cases h.2

theorem inRow_step (h : (s.step o e).2 ≠ none) : (s.step o e).1.inRow = false := by
  have ht := takes_step o s e
  generalize s.step o e = r at h ht
  cases ht with
  | starts hstart => exact absurd rfl h
  | ends hend hin => rfl
  | passes hstart hend hin hopened => exact absurd rfl h

theorem opened_step (o : Options) (s : Scan) (e : Event) :
    (s.step o e).1.opened = s.opened + if IsRowStart o e then 1 else 0 := by
  have h := takes_step o s e
  generalize s.step o e = r at h
  cases h with
  | starts hstart => rw [if_pos hstart, opened_openRow]
  | ends hend hin => rw [if_neg fun h ↦ not_isRowStart_endTag _ (hend ▸ h), Nat.add_zero]
  | passes hstart hend hin hopened => rw [if_neg hstart, hopened, Nat.add_zero]

/-- What an event adds to the rows seen it adds to those given, given up or open. -/
theorem account_step (o : Options) (s : Scan) (e : Event) :
    (s.step o e).1.opened + (if s.inRow then 1 else 0) =
      s.opened + (s.step o e).2.toList.length + (if IsRowStart o e ∧ s.inRow = true then 1 else 0) +
        if (s.step o e).1.inRow then 1 else 0 := by
  have h := takes_step o s e
  generalize s.step o e = r at h
  cases h with
  | starts hstart =>
    simp only [hstart, true_and, inRow_openRow, opened_openRow, Option.toList_none, List.length_nil,
      if_true]
    omega
  | ends hend hin =>
    have hstart : ¬ IsRowStart o e := fun h ↦ not_isRowStart_endTag _ (hend ▸ h)
    simp [hin, hstart]
  | passes hstart hend hin hopened => simp [hin, hstart, hopened]

/-! ## All events -/

theorem run_concat (o : Options) (s : Scan) (es : List Event) (e : Event) :
    s.run o (es ++ [e]) = ((s.run o es).1 ++ ((s.run o es).2.step o e).2.toList,
      ((s.run o es).2.step o e).1) := by
  rw [run_append, run_cons, run_nil, List.append_nil]

/-- What the events say about open rows is what the scan has in mind. -/
theorem inRow_run_iff : (Scan.run o {} es).2.inRow = true ↔ IsOpenAfter o es := by
  induction es using List.reverseRecOn with
  | nil => exact iff_of_false Bool.false_ne_true not_isOpenAfter_nil
  | append_singleton es e ih =>
    rw [run_concat, isOpenAfter_concat, ← ih]
    have ht := takes_step o (Scan.run o {} es).2 e
    generalize (Scan.run o {} es).2.step o e = r at ht
    cases ht with
    | starts hstart => exact iff_of_true rfl (.inl hstart)
    | ends hend hin =>
      refine iff_of_false Bool.false_ne_true ?_
      rintro (hstart | ⟨hne, -⟩)
      · exact not_isRowStart_endTag _ (hend ▸ hstart)
      · exact hne hend
    | passes hstart hend hin hopened =>
      rw [hin]
      constructor
      · intro h
        refine .inr ⟨fun he ↦ ?_, h⟩
        rw [hend he] at h
        cases h
      · rintro (h | ⟨-, h⟩)
        · exact absurd h hstart
        · exact h

end Scan

instance : DecidablePred (IsOpenAfter o) := fun _ ↦ decidable_of_iff _ Scan.inRow_run_iff

/-- The number of member rows that start while one is open, behind what came before. -/
def reopenings (o : Options) (past : List Event) : List Event → Nat
  | [] => 0
  | e :: es =>
    (if IsRowStart o e ∧ IsOpenAfter o past then 1 else 0) + reopenings o (past ++ [e]) es

theorem reopenings_concat (o : Options) (past es : List Event) (e : Event) :
    reopenings o past (es ++ [e]) = reopenings o past es +
      if IsRowStart o e ∧ IsOpenAfter o (past ++ es) then 1 else 0 := by
  induction es generalizing past with
  | nil => simp [reopenings]
  | cons x es ih =>
    rw [List.cons_append, reopenings, reopenings, ih, List.append_assoc, List.singleton_append,
      Nat.add_assoc]

namespace Scan

variable {s : Scan}

/-! ## Rows seen -/

theorem opened_run (o : Options) (es : List Event) :
    (Scan.run o {} es).2.opened = es.countP (IsRowStart o ·) := by
  induction es using List.reverseRecOn with
  | nil => rfl
  | append_singleton es e ih =>
    rw [run_concat, List.countP_append, ← ih, opened_step]
    simp [List.countP_cons]

/-- Rows seen are rows given, rows given up and perhaps one that is open. -/
theorem opened_run_eq_add (o : Options) (es : List Event) :
    (Scan.run o {} es).2.opened = (Scan.run o {} es).1.length + reopenings o [] es +
      if (Scan.run o {} es).2.inRow then 1 else 0 := by
  induction es using List.reverseRecOn with
  | nil => rfl
  | append_singleton es e ih =>
    have hstep := account_step o (Scan.run o {} es).2 e
    simp only [@inRow_run_iff o es] at hstep ih
    simp only [run_concat, reopenings_concat, List.nil_append, List.length_append]
    omega

/-- Between two starts the open row is given once if it ends, however often. -/
theorem length_run_of_inRow (hs : s.inRow = true) (h : ∀ e ∈ es, ¬ IsRowStart o e) :
    (s.run o es).1.length = if .endTag "tr".toList ∈ es then 1 else 0 := by
  induction es generalizing s with
  | nil => rfl
  | cons e es ih =>
    rw [List.forall_mem_cons] at h
    rw [run_cons]
    have ht := takes_step o s e
    generalize s.step o e = r at ht
    cases ht with
    | starts hstart => exact absurd hstart h.1
    | ends hend hin =>
      have hrest := run_outside (s := ⟨.outside, [], [], s.opened⟩) rfl fun e he ↦
        opens_of_not_isRowStart (h.2 e he)
      rw [hrest, hend, if_pos List.mem_cons_self]
      rfl
    | passes hstart hend hin hopened =>
      have hne : .endTag "tr".toList ≠ e := by
        intro he
        rw [hend he.symm] at hs
        cases hs
      simp only [Option.toList_none, List.nil_append, ih (hin.trans hs) h.2, List.mem_cons, hne,
        false_or]

/-- After any events the rows seen are those that started, and each of them was given, was given up
for the next one or is the open one.  Outside rows a scan holds no text.  The next event gives a
declaration just if it is the end of the open row, which then is open no longer.  So a row that
starts next is given once, or not at all if no row ends before yet another one starts. -/
theorem accounts (o : Options) (es : List Event) :
    let given := (Scan.run o {} es).1
    let s := (Scan.run o {} es).2
    (s.inRow = true ↔ IsOpenAfter o es) ∧
      s.opened = es.countP (IsRowStart o ·) ∧
      s.opened = given.length + reopenings o [] es + (if s.inRow then 1 else 0) ∧
      (s.inRow = false → s.left = [] ∧ s.right = []) ∧
      (∀ e, ((s.step o e).2 ≠ none ↔ e = .endTag "tr".toList ∧ s.inRow = true) ∧
        ((s.step o e).2 ≠ none → (s.step o e).1.inRow = false)) ∧
      ∀ start after, IsRowStart o start → (∀ e ∈ after, ¬ IsRowStart o e) →
        (s.run o (start :: after)).1.length = if .endTag "tr".toList ∈ after then 1 else 0 := by
  intro given s
  have hclear : s.IsClear := (show Scan.IsClear {} from fun _ ↦ ⟨rfl, rfl⟩).run o es
  refine ⟨inRow_run_iff, opened_run o es, opened_run_eq_add o es, ?_, ?_, ?_⟩
  · intro hout
    exact hclear (place_eq_outside_iff.mpr hout)
  · intro e
    exact ⟨step_ne_none_iff, inRow_step⟩
  · intro start after hstart hafter
    rw [run_cons, step_of_opens (opens_iff.mpr hstart)]
    exact length_run_of_inRow (inRow_openRow s) hafter

/-- Of three rows the first is given up for the second, which is given, and the third is open. -/
example :
    let row : Event := .startTag "tr".toList [⟨"class".toList, "memitem:x".toList⟩]
    let es := [row, row, .endTag "tr".toList, .endTag "tr".toList, row]
    (Scan.run {} {} es).1.length = 1 ∧ reopenings {} [] es = 1 ∧
      (Scan.run {} {} es).2.inRow = true := by
  decide

end Scan

end Typings.Page.Row
