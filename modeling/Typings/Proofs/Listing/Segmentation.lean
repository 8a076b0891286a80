import Mathlib.Data.List.Sort
import Typings.Proofs.Listing.Tables

/-!
# What a listing amounts to

`IsReading` says what records and skipped lines belong to the lines of a text, without going through
them one by one: the lines are cut in front of each opener.  `parse_eq_iff_isReading` says that
there is one such listing and that it is the one found.
-/

namespace Typings.Listing

open Line (IsOpener Unread)

variable {spaceShifts : Bool}

/-- `l` is what the lines amount to. There is a record for each table, in order, and the skipped
lines are those behind the first opener that say nothing understood, in order and numbered from
one. -/
def IsReading (spaceShifts : Bool) (lines : List Text) (l : Listing) : Prop :=
  ∃ preamble tables, lines = preamble ++ tables.flatMap Table.lines ∧
    (∀ line ∈ preamble, ¬ IsOpener line) ∧
    List.Forall₂ (Table.Declares spaceShifts) tables l.records ∧
    l.skipped.Pairwise (·.number < ·.number) ∧
    ∀ x, x ∈ l.skipped ↔
      preamble.length < x.number ∧ lines[x.number - 1]? = some x.text ∧ Unread spaceShifts x.text

theorem eq_of_pairwise_number {xs ys : List SkippedLine}
    (hx : xs.Pairwise (·.number < ·.number)) (hy : ys.Pairwise (·.number < ·.number))
    (h : ∀ x, x ∈ xs ↔ x ∈ ys) : xs = ys := by
  have : Std.Irrefl fun x y : SkippedLine ↦ x.number < y.number := ⟨fun _ ↦ Nat.lt_irrefl _⟩
  have : Std.Antisymm fun x y : SkippedLine ↦ x.number < y.number :=
    ⟨fun _ _ h h' ↦ absurd h' (Nat.lt_asymm h)⟩
  exact hx.eq_of_mem_iff hy h

/-- The lines of tables behind a preamble that are not understood, as members. -/
theorem mem_unread_tables_iff {preamble : List Text} {tables : List Table} {x : SkippedLine} :
    x ∈ unread spaceShifts (1 + preamble.length) (tables.flatMap Table.lines) ↔
      preamble.length < x.number ∧
        (preamble ++ tables.flatMap Table.lines)[x.number - 1]? = some x.text ∧
          Unread spaceShifts x.text := by
  rw [mem_unread_iff, Nat.add_comm, Nat.succ_le_iff]
  refine and_congr_right fun h ↦ ?_
  have : x.number - 1 - preamble.length = x.number - (preamble.length + 1) := by omega
  rw [List.getElem?_append_right (by omega), this]

/-- Reading a listing gives what its lines amount to, and nothing else is that. -/
theorem parse_eq_iff_isReading (o : Options) (source : Text) (l : Listing) :
    parse o source = l ↔ IsReading o.spaceShifts (Text.lines source) l := by
  constructor
  · rintro rfl
    obtain ⟨preamble, tables, ds, hs, hp, ht⟩ := exists_tables o.spaceShifts (Text.lines source)
    rw [parse_of_tables hs hp ht]
    refine ⟨preamble, tables, hs, hp, ht, pairwise_unread _ _ _, fun x ↦ ?_⟩
    rw [hs]
    exact mem_unread_tables_iff
  · rintro ⟨preamble, tables, hs, hp, ht, hsort, hmem⟩
    have hskipped : unread o.spaceShifts (1 + preamble.length) (tables.flatMap Table.lines) =
        l.skipped :=
      eq_of_pairwise_number (pairwise_unread _ _ _) hsort fun x ↦ by
        rw [hmem, hs]
        exact mem_unread_tables_iff
    rw [parse_of_tables hs hp ht, hskipped]

end Typings.Listing
