import Typings.Proofs.Listing.Tables
import Typings.Proofs.Text.Line

/-!
# Listings one behind the other

The number of the first line bears on nothing but the numbers of skipped lines
(`findingsFrom_add`).  An opener closes an open table as the end of a text does, and so a listing that
starts with one is read by itself, whatever listing stands in front of it
(`parse_append_opener`).
-/

namespace Typings

open Text

/-- The skipped line with `n` more lines in front of it. -/
def SkippedLine.later (n : Nat) (l : SkippedLine) : SkippedLine := ⟨l.number + n, l.text⟩

namespace Listing

/-- What was found, with `n` more lines in front of it. -/
def Finding.later (n : Nat) : Finding → Finding
  | .table d => .table d
  | .skipped line owner => .skipped (line.later n) owner

theorem Finding.record?_later (n : Nat) (f : Finding) : (f.later n).record? = f.record? := by
  cases f <;> rfl

theorem Finding.skipped?_later (n : Nat) (f : Finding) :
    (f.later n).skipped? = f.skipped?.map (SkippedLine.later n) := by
  cases f <;> rfl

variable {o : Options} {a b opener : Text} {fs gs : List Finding}

theorem foundAt_add (n k : Nat) (x : Text) (current : Option Declaration) (line : Line) :
    foundAt (n + k) x current line = (foundAt n x current line).map (Finding.later k) := by
  cases current <;> cases line <;> rfl

theorem findingsFrom_add (spaceShifts : Bool) (n k : Nat) (current : Option Declaration)
    (xs : List Text) : findingsFrom spaceShifts (n + k) current xs =
      (findingsFrom spaceShifts n current xs).map (Finding.later k) := by
  induction xs generalizing n current with
  | nil => cases current <;> rfl
  | cons x xs ih =>
    rw [findingsFrom_cons, findingsFrom_cons, Nat.add_right_comm, ih, foundAt_add, List.map_append]

theorem ofFindings_append_later (fs gs : List Finding) (n : Nat) :
    ofFindings (fs ++ gs.map (Finding.later n)) =
      ⟨(ofFindings fs).records ++ (ofFindings gs).records,
        (ofFindings fs).skipped ++ (ofFindings gs).skipped.map (SkippedLine.later n)⟩ := by
  have hrecords : (gs.map (Finding.later n)).filterMap Finding.record? =
      gs.filterMap Finding.record? := by
    rw [List.filterMap_map]
    exact List.filterMap_congr fun f _ ↦ Finding.record?_later n f
  have hskipped : (gs.map (Finding.later n)).filterMap Finding.skipped? =
      (gs.filterMap Finding.skipped?).map (SkippedLine.later n) := by
    rw [List.filterMap_map, List.map_filterMap]
    exact List.filterMap_congr fun f _ ↦ Finding.skipped?_later n f
  simp only [ofFindings, List.filterMap_append, hrecords, hskipped]

/-- A text that starts with an opener gives what it gives by itself, behind any whole lines. -/
theorem findings_append_opener (ha : WholeLines a) (hb : opener ∈ (lines b).head?)
    (hopener : Line.IsOpener opener) (o : Options) :
    findings o (a ++ b) = findings o a ++ (findings o b).map (Finding.later (lines a).length) := by
  obtain ⟨rest, hrest⟩ := List.head?_eq_some_iff.mp hb
  obtain ⟨name, hname⟩ := hopener
  rw [findings, ha.lines_append, hrest, findingsFrom_append hname, findingsFrom_add, findings,
    findings, hrest]

/-- Listings compose: if the second text starts with an opener, the records are those of the two
texts, and so are the skipped lines, where those of the second text count on from the first. -/
theorem parse_append_opener (ha : WholeLines a) (hb : opener ∈ (lines b).head?)
    (hopener : Line.IsOpener opener) (o : Options) :
    parse o (a ++ b) = ⟨(parse o a).records ++ (parse o b).records,
      (parse o a).skipped ++ (parse o b).skipped.map (SkippedLine.later (lines a).length)⟩ := by
  rw [parse, findings_append_opener ha hb hopener, ofFindings_append_later]
  rfl

/-- The table at the end of the first text is left open, and the second text starts with an empty
one. -/
theorem parse_append_opener_unclosed :
    let a := "x\nA = \x7b\n  X = 1,\n  Y == 2\r\n".toList
    let b := "\tB = \x7b\nC = \x7b\n  Z\n\x7d".toList
    let opener := "\tB = \x7b".toList
    WholeLines a ∧ opener ∈ (lines b).head? ∧ Line.IsOpener opener ∧
      parse {} (a ++ b) =
        ⟨[⟨Declaration.enumKind, "A".toList, [⟨"X".toList, "1".toList⟩]⟩,
            ⟨Declaration.enumKind, "B".toList, []⟩, ⟨Declaration.enumKind, "C".toList, []⟩],
          [⟨4, "  Y == 2".toList⟩, ⟨7, "  Z".toList⟩]⟩ := by
  intro a b opener
  have ha : WholeLines a := by decide
  have hb : opener ∈ (lines b).head? := by decide
  have hopener : Line.IsOpener opener := ⟨"B".toList, Line.opened?_eq_some_iff.mp (by decide)⟩
  refine ⟨ha, hb, hopener, ?_⟩
  rw [parse_append_opener ha hb hopener]
  decide +kernel

end Listing

end Typings
