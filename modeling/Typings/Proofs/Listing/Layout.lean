import Typings.Proofs.Listing.Blanks
import Typings.Proofs.Listing.Segmentation

/-!
# The layout of a listing

How far lines are indented, what blanks stand at their ends and how they are broken has no say in
what a listing amounts to (`parse_of_map_trim`).
-/

namespace Typings.Listing

open Text

variable {o : Options} {source source' : Text}

/-- A skipped line is the line of the source that has its number. -/
theorem getElem?_of_mem_skipped {x : SkippedLine} (h : x ∈ (parse o source).skipped) :
    (lines source)[x.number - 1]? = some x.text := by
  obtain ⟨preamble, tables, ds, hs, hp, ht⟩ := exists_tables o.spaceShifts (lines source)
  rw [parse_of_tables hs hp ht] at h
  rw [hs]
  exact (mem_unread_tables_iff.mp h).2.1

theorem map_trim_text (o : Options) (source : Text) :
    (parse o source).skipped.map (trim ·.text) =
      ((parse o source).skipped.map SkippedLine.number).map fun n ↦
        ((lines source).map trim)[n - 1]?.getD [] := by
  rw [List.map_map]
  refine List.map_congr_left fun x hx ↦ ?_
  simp [getElem?_of_mem_skipped hx]

/-- Sources of as many lines, which are the same but for the blanks at their ends, give the same
records.  Lines of the same numbers are skipped, and they too differ in no more than such blanks. -/
theorem parse_of_map_trim (o : Options) (h : (lines source).map trim = (lines source').map trim) :
    (parse o source).records = (parse o source').records ∧
      (parse o source).skipped.map SkippedLine.number =
        (parse o source').skipped.map SkippedLine.number ∧
      (parse o source).skipped.map (trim ·.text) = (parse o source').skipped.map (trim ·.text) := by
  have hlines : List.Forall₂ (fun x y ↦ trim x = trim y) (lines source) (lines source') := by
    rwa [← List.forall₂_eq_eq_eq, List.forall₂_map_left_iff, List.forall₂_map_right_iff] at h
  have hread : List.Forall₂ (fun x y ↦ Line.read o.spaceShifts x = Line.read o.spaceShifts y)
      (lines source) (lines source') := by
    refine hlines.imp fun x y hxy ↦ ?_
    rw [← Line.read_trim, hxy, Line.read_trim]
  obtain ⟨hrecords, hnumbers⟩ := parse_congr hread
  refine ⟨hrecords, hnumbers, ?_⟩
  rw [map_trim_text, map_trim_text, hnumbers, h]

/-- The second source has tabs, a space that does not break and carriage returns where the first one
has spaces and line feeds. -/
theorem parse_of_map_trim_tabs :
    let source := "A = \x7b\n  X = 1<<2 , -- x\n\n  Y == 3\n\x7d\n".toList
    let source' := "\tA = \x7b  \r\n\u00a0X = 1<<2 , -- x\t\r\n \r\nY == 3\r\n\t\x7d".toList
    let record : Declaration :=
      ⟨Declaration.enumKind, "A".toList, [⟨"X".toList, "1 << 2".toList⟩]⟩
    (lines source).map trim = (lines source').map trim ∧
      (parse {} source').records = [record] ∧
      (parse {} source').skipped.map SkippedLine.number = [4] ∧
      (parse {} source').skipped.map (trim ·.text) = ["Y == 3".toList] := by
  intro source source' record
  have hlines : (lines source').map trim = (lines source).map trim := by decide +kernel
  have hparse : parse {} source = ⟨[record], [⟨4, "  Y == 3".toList⟩]⟩ := by decide +kernel
  obtain ⟨hrecords, hnumbers, htexts⟩ := parse_of_map_trim {} hlines
  rw [hrecords, hnumbers, htexts, hparse]
  exact ⟨hlines.symm, rfl, rfl, by decide⟩

end Typings.Listing
