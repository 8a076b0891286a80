import Mathlib.Data.List.Forall2
import Typings.Listing
import Typings.Proofs.Listing.Line

/-!
# Listings table by table

A listing falls apart at the lines that open a table.  What a reading has found when such a line
comes is closed by it just as the end of the text would close it (`findingsFrom_append`), so that
each table can be read by itself (`findingsFrom_table`), and what a listing amounts to follows for
any number of tables (`parse_of_tables`).
-/

namespace Typings.Listing

open Line (IsOpener Opens Gives Unread entry? read withoutComment)

variable {spaceShifts : Bool} {n : Nat} {current : Option Declaration} {d : Declaration}
variable {line name : Text} {xs ys body : List Text} {c : Constant} {cs : List Constant}

/-! ## Descriptions -/

/-- `cs` has one constant for each line that gives one, in the order of the lines. -/
inductive Collects (spaceShifts : Bool) : List Text → List Constant → Prop
  | nil : Collects spaceShifts [] []
  | entry {line : Text} {c : Constant} {lines : List Text} {cs : List Constant} :
    Gives spaceShifts line c → Collects spaceShifts lines cs →
      Collects spaceShifts (line :: lines) (c :: cs)
  | other {line : Text} {lines : List Text} {cs : List Constant} :
    (∀ c, ¬ Gives spaceShifts line c) → Collects spaceShifts lines cs →
      Collects spaceShifts (line :: lines) cs

/-- A table as it stands in a listing: the line that opens it, and the lines up to the next line
that opens one. -/
structure Table where
  opener : Text
  body : List Text

namespace Table

def lines (t : Table) : List Text := t.opener :: t.body

/-- What it means for `d` to be the declaration of a table. -/
structure Declares (spaceShifts : Bool) (t : Table) (d : Declaration) : Prop where
  kind : d.kind = Declaration.enumKind
  name : Opens t.opener d.name
  body : ∀ line ∈ t.body, ¬ IsOpener line
  members : Collects spaceShifts t.body d.members

end Table

/-! ## Lines without an opener -/

/-- The constants of lines that open no table. -/
def constants (spaceShifts : Bool) (body : List Text) : List Constant :=
  body.filterMap fun line ↦ entry? spaceShifts (withoutComment line)

/-- The lines that were not understood, numbered from `n` on. -/
def unread (spaceShifts : Bool) (n : Nat) : List Text → List SkippedLine
  | [] => []
  | line :: rest =>
    match read spaceShifts line with
    | .unknown => ⟨n, line⟩ :: unread spaceShifts (n + 1) rest
    | _ => unread spaceShifts (n + 1) rest

theorem constants_cons_of_gives (h : Gives spaceShifts line c) (body : List Text) :
    constants spaceShifts (line :: body) = c :: constants spaceShifts body :=
  List.filterMap_cons_some (Line.entry?_withoutComment_eq_some_iff.mpr h)

theorem constants_cons_of_not_gives (h : ∀ c, ¬ Gives spaceShifts line c) (body : List Text) :
    constants spaceShifts (line :: body) = constants spaceShifts body :=
  List.filterMap_cons_none (Option.eq_none_iff_forall_ne_some.mpr fun c e ↦
    h c (Line.entry?_withoutComment_eq_some_iff.mp e))

theorem constants_append (xs ys : List Text) :
    constants spaceShifts (xs ++ ys) = constants spaceShifts xs ++ constants spaceShifts ys :=
  List.filterMap_append

theorem constants_eq_nil (h : ∀ line ∈ xs, ∀ c, ¬ Gives spaceShifts line c) :
    constants spaceShifts xs = [] := by
  induction xs with
  | nil => rfl
  | cons line xs ih =>
    rw [List.forall_mem_cons] at h
    rw [constants_cons_of_not_gives h.1, ih h.2]

theorem collects_iff : Collects spaceShifts body cs ↔ cs = constants spaceShifts body := by
  constructor
  · intro h
    induction h with
    | nil => rfl
    | entry hg _ ih => rw [constants_cons_of_gives hg, ih]
    | other hn _ ih => rw [constants_cons_of_not_gives hn, ih]
  · rintro rfl
    induction body with
    | nil => exact .nil
    | cons line body ih =>
        by_cases h : ∃ c, Gives spaceShifts line c
        · obtain ⟨c, hc⟩ := h
          rw [constants_cons_of_gives hc]
          exact .entry hc ih
        · rw [not_exists] at h
          rw [constants_cons_of_not_gives h]
          exact .other h ih

theorem unread_append (xs ys : List Text) :
    unread spaceShifts n (xs ++ ys) =
      unread spaceShifts n xs ++ unread spaceShifts (n + xs.length) ys := by
  induction xs generalizing n with
  | nil => rfl
  | cons line xs ih =>
    simp only [List.cons_append, unread, List.length_cons, ih, Nat.add_right_comm n 1,
      Nat.add_assoc]
    cases read spaceShifts line <;> rfl

theorem mem_unread_iff {x : SkippedLine} : x ∈ unread spaceShifts n xs ↔
    n ≤ x.number ∧ xs[x.number - n]? = some x.text ∧ Unread spaceShifts x.text := by
  induction xs generalizing n with
  | nil => simp [unread]
  | cons line xs ih =>
    have key : x ∈ unread spaceShifts n (line :: xs) ↔
        (x = ⟨n, line⟩ ∧ Unread spaceShifts line) ∨ x ∈ unread spaceShifts (n + 1) xs := by
      rw [← Line.read_eq_unknown_iff, unread]
      cases read spaceShifts line <;> simp
    rw [key, ih]
    obtain ⟨m, text⟩ := x
    constructor
    · rintro (⟨h, hu⟩ | ⟨hm, hx, hu⟩)
      · cases h
        exact ⟨Nat.le_refl _, by simp, hu⟩
      · have : m - n = m - (n + 1) + 1 := by dsimp only at hm; omega
        exact ⟨Nat.le_of_succ_le hm, by simpa [this] using hx, hu⟩
    · rintro ⟨hm, hx, hu⟩
      dsimp only at hm hx hu
      rcases Nat.eq_or_lt_of_le hm with rfl | hlt
      · have : line = text := by simpa using hx
        exact .inl ⟨by rw [this], this ▸ hu⟩
      · have : m - n = m - (n + 1) + 1 := by omega
        exact .inr ⟨hlt, by simpa [this] using hx, hu⟩

theorem pairwise_unread (spaceShifts : Bool) (n : Nat) (xs : List Text) :
    (unread spaceShifts n xs).Pairwise (·.number < ·.number) := by
  induction xs generalizing n with
  | nil => exact .nil
  | cons line xs ih =>
    have hcons : (⟨n, line⟩ :: unread spaceShifts (n + 1) xs : List SkippedLine).Pairwise
        (·.number < ·.number) := by
      refine List.pairwise_cons.mpr ⟨fun x hx ↦ ?_, ih (n + 1)⟩
      exact (mem_unread_iff.mp hx).1
    rw [unread]
    cases read spaceShifts line
    case unknown => exact hcons
    all_goals exact ih (n + 1)

/-! ## One line -/

/-- What comes to light at a line, given its number and the table that is open in front of it. -/
def foundAt (n : Nat) (line : Text) (current : Option Declaration) : Line → List Finding
  | .opener _ => (current.map Finding.table).toList
  | .unknown => (current.map fun d ↦ Finding.skipped ⟨n, line⟩ d.name).toList
  | _ => []

/-- The table that is open behind a line, given the one that is open in front of it. -/
def openBehind (current : Option Declaration) : Line → Option Declaration
  | .opener name => some ⟨Declaration.enumKind, name, []⟩
  | .entry c => current.map fun d ↦ { d with members := d.members ++ [c] }
  | _ => current

theorem findingsFrom_cons (spaceShifts : Bool) (n : Nat) (current : Option Declaration)
    (line : Text) (rest : List Text) : findingsFrom spaceShifts n current (line :: rest) =
      foundAt n line current (read spaceShifts line) ++
        findingsFrom spaceShifts (n + 1) (openBehind current (read spaceShifts line)) rest := by
  cases current with
  | none =>
    rw [findingsFrom]
    cases read spaceShifts line <;> rfl
  | some d =>
    rw [findingsFrom]
    cases read spaceShifts line <;> rfl

/-! ## One table -/

/-- Lines without an opener before the first table count for nothing. -/
theorem findingsFrom_preamble (h : ∀ line ∈ xs, ¬ IsOpener line) :
    findingsFrom spaceShifts n none xs = [] := by
  induction xs generalizing n with
  | nil => rfl
  | cons line xs ih =>
    rw [List.forall_mem_cons] at h
    have hr : ∀ name, read spaceShifts line ≠ .opener name := by
      rw [Line.read_of_not_isOpener h.1]
      cases entry? spaceShifts (withoutComment line) with
      | some c => simp
      | none => simp only; split <;> simp
    rw [findingsFrom_cons]
    cases hline : read spaceShifts line with
    | opener name => exact absurd hline (hr name)
    | _ => exact ih h.2

/-- Lines without an opener add their constants to the open table. -/
theorem findingsFrom_body (h : ∀ line ∈ body, ¬ IsOpener line) :
    findingsFrom spaceShifts n (some d) body =
      (unread spaceShifts n body).map (Finding.skipped · d.name) ++
        [.table { d with members := d.members ++ constants spaceShifts body }] := by
  induction body generalizing n d with
  | nil => simp [findingsFrom, unread, constants]
  | cons line body ih =>
    rw [List.forall_mem_cons] at h
    rw [findingsFrom_cons, unread, Line.read_of_not_isOpener h.1]
    cases he : entry? spaceShifts (withoutComment line) with
    | some c => simp [foundAt, openBehind, ih h.2, constants, he]
    | none =>
      by_cases hs : Line.isStructural (withoutComment line) = true
      · simp [foundAt, openBehind, ih h.2, constants, he, hs]
      · simp [foundAt, openBehind, ih h.2, constants, he, hs]

/-- An opener closes the open table as the end of the text would. -/
theorem findingsFrom_append (h : Opens line name) (xs ys : List Text) :
    findingsFrom spaceShifts n current (xs ++ line :: ys) =
      findingsFrom spaceShifts n current xs ++
        findingsFrom spaceShifts (n + xs.length) none (line :: ys) := by
  induction xs generalizing n current with
  | nil =>
    rw [List.nil_append, findingsFrom_cons, findingsFrom_cons, h.read]
    rfl
  | cons x xs ih =>
    have hn : n + 1 + xs.length = n + (x :: xs).length := by simp; omega
    rw [List.cons_append, findingsFrom_cons, ih, hn, findingsFrom_cons _ _ current,
      List.append_assoc]

/-! ## All tables -/

variable {t : Table} {tables : List Table} {ds : List Declaration} {preamble : List Text}

theorem unread_lines (h : t.Declares spaceShifts d) (n : Nat) :
    unread spaceShifts n t.lines = unread spaceShifts (n + 1) t.body := by
  rw [Table.lines, unread, h.name.read]

/-- A table by itself gives its declaration, behind the lines of it that were not understood. -/
theorem findingsFrom_table (h : t.Declares spaceShifts d) (n : Nat) :
    findingsFrom spaceShifts n none t.lines =
      (unread spaceShifts n t.lines).map (Finding.skipped · d.name) ++ [.table d] := by
  have hd : (⟨Declaration.enumKind, d.name, constants spaceShifts t.body⟩ : Declaration) = d := by
    rw [← h.kind, ← collects_iff.mp h.members]
  rw [unread_lines h, Table.lines, findingsFrom_cons, h.name.read]
  simp only [foundAt, openBehind, Option.map_none, Option.toList_none, findingsFrom_body h.body,
    List.nil_append, hd]

theorem findingsFrom_append_tables (h : List.Forall₂ (Table.Declares spaceShifts) tables ds)
    (xs : List Text) :
    findingsFrom spaceShifts n current (xs ++ tables.flatMap Table.lines) =
      findingsFrom spaceShifts n current xs ++
        findingsFrom spaceShifts (n + xs.length) none (tables.flatMap Table.lines) := by
  cases h with
  | nil => simp [findingsFrom]
  | cons ht _ => exact findingsFrom_append ht.name xs _

/-- Tables one behind the other give their declarations, and the lines of theirs that were not
understood. -/
theorem findingsFrom_tables (h : List.Forall₂ (Table.Declares spaceShifts) tables ds) (n : Nat) :
    ofFindings (findingsFrom spaceShifts n none (tables.flatMap Table.lines)) =
      ⟨ds, unread spaceShifts n (tables.flatMap Table.lines)⟩ := by
  induction h generalizing n with
  | nil => rfl
  | @cons t d tables ds ht hts ih =>
      have ih := ih (n + t.lines.length)
      simp only [ofFindings, Listing.mk.injEq] at ih ⊢
      rw [List.flatMap_cons, findingsFrom_append_tables hts, findingsFrom_table ht, unread_append]
      simp [List.filterMap_map, List.filterMap_cons, Function.comp_def, ih, Finding.record?,
        Finding.skipped?]

/-- A listing amounts to the declarations of its tables. -/
theorem parse_of_tables {o : Options} {source : Text}
    (hs : Text.lines source = preamble ++ tables.flatMap Table.lines)
    (hp : ∀ line ∈ preamble, ¬ IsOpener line)
    (ht : List.Forall₂ (Table.Declares o.spaceShifts) tables ds) :
    parse o source =
      ⟨ds, unread o.spaceShifts (1 + preamble.length) (tables.flatMap Table.lines)⟩ := by
  rw [parse, findings, hs, findingsFrom_append_tables ht, findingsFrom_preamble hp,
    List.nil_append, findingsFrom_tables ht]

theorem exists_table_of_mem (h : List.Forall₂ (Table.Declares spaceShifts) tables ds)
    (hd : d ∈ ds) : ∃ t ∈ tables, t.Declares spaceShifts d := by
  induction h with
  | nil => cases hd
  | @cons t d' tables ds ht _ ih =>
      rcases List.mem_cons.mp hd with rfl | hd
      · exact ⟨t, List.mem_cons_self, ht⟩
      · obtain ⟨t', hmem, ht'⟩ := ih hd
        exact ⟨t', List.mem_cons_of_mem t hmem, ht'⟩

/-- All lines fall into tables, but for those before the first opener. -/
theorem exists_tables (spaceShifts : Bool) (xs : List Text) :
    ∃ preamble tables ds, xs = preamble ++ tables.flatMap Table.lines ∧
      (∀ line ∈ preamble, ¬ IsOpener line) ∧
        List.Forall₂ (Table.Declares spaceShifts) tables ds := by
  induction xs with
  | nil => exact ⟨[], [], [], rfl, by simp, .nil⟩
  | cons line xs ih =>
    obtain ⟨preamble, tables, ds, rfl, hp, ht⟩ := ih
    by_cases h : IsOpener line
    · obtain ⟨name, hn⟩ := h
      refine ⟨[], ⟨line, preamble⟩ :: tables,
        ⟨Declaration.enumKind, name, constants spaceShifts preamble⟩ :: ds, by simp [Table.lines],
        by simp, .cons ⟨rfl, hn, hp, collects_iff.mpr rfl⟩ ht⟩
    · exact ⟨line :: preamble, tables, ds, rfl, List.forall_mem_cons.mpr ⟨h, hp⟩, ht⟩

end Typings.Listing
