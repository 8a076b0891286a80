import Typings.Proofs.Listing.Blanks
import Typings.Proofs.Page.Pieces
import Typings.Proofs.Text.Word

/-!
# Comparisons

An identifier and `==` are no assignment.  A line of a listing that starts with them is not
understood and changes no record (`records_insert`).  A piece of a cell that does is taken for a
constant all the same if a word follows, with a value that starts with the second equals sign
(`member?_comparison`).
-/

namespace Typings

open Text

variable {on : Bool} {s line name operand : Text}

/-- The text is an identifier and then, perhaps behind blanks, `==` and an operand. -/
def IsComparison (s name operand : Text) : Prop :=
  Identifier.check name = true ∧ ∃ gap, isBlankText gap = true ∧
    s = name ++ gap ++ "==".toList ++ operand

namespace IsComparison

/-- What is left behind the name is no single equals sign, with blanks around it or without. -/
theorem exists_read? (h : IsComparison s name operand) :
    ∃ rest, Identifier.read? s = some (name, rest) ∧ trimStart rest = '=' :: '=' :: operand := by
  obtain ⟨hname, gap, hgap, rfl⟩ := h
  have hstart : trimStart ('=' :: '=' :: operand) = '=' :: '=' :: operand :=
    trimStart_of_stops (stops_cons.mpr rfl)
  refine ⟨gap ++ '=' :: '=' :: operand, Identifier.read?_eq_some_iff.mpr ⟨by simp, hname, ?_⟩, ?_⟩
  · cases gap with
    | nil => exact stops_cons.mpr rfl
    | cons c gap =>
      have hc := isBlankText_iff.mp hgap c List.mem_cons_self
      refine stops_cons.mpr (Bool.eq_false_iff.mpr fun htail ↦ ?_)
      rw [Identifier.isBlank_of_isTail htail] at hc
      cases hc
  · rw [trimStart_blank_append hgap, hstart]

theorem stops_isBlank (h : IsComparison s name operand) : Stops isBlank s := by
  obtain ⟨hname, gap, -, rfl⟩ := h
  rw [List.append_assoc, List.append_assoc]
  exact Identifier.stops_isBlank_append hname _

theorem trim (h : IsComparison s name operand) : IsComparison (trim s) name (trimEnd operand) := by
  rw [Text.trim, trimStart_of_stops h.stops_isBlank]
  obtain ⟨hname, gap, hgap, rfl⟩ := h
  have hend : trimEnd (name ++ gap ++ "==".toList) = name ++ gap ++ "==".toList := by
    simpa using trimEnd_concat (c := '=') rfl (name ++ gap ++ ['='])
  exact ⟨hname, gap, hgap, trimEnd_append_of_eq hend operand⟩

theorem withoutComment (h : IsComparison s name operand) :
    IsComparison (Listing.Line.withoutComment s) name (Listing.Line.withoutComment operand) := by
  obtain ⟨hname, gap, hgap, rfl⟩ := h
  have hname' : '-' ∉ name := Identifier.notMem_of_check hname rfl
  have hgap' : '-' ∉ gap := notMem_of_isBlankText hgap rfl
  exact ⟨hname, gap, hgap, Listing.Line.withoutComment_append (by simp [hname', hgap']) operand⟩

end IsComparison

/-! ## In a listing -/

namespace Listing

namespace Line

theorem opened?_comparison (h : IsComparison s name operand) : opened? s = none := by
  obtain ⟨rest, hread, hrest⟩ := h.trim.exists_read?
  have hne : rest ≠ " = \x7b".toList := by
    rintro rfl
    exact absurd (List.cons.inj (List.cons.inj hrest).2).1 (by decide)
  rw [opened?, hread]
  exact if_neg hne

theorem entry?_comparison (h : IsComparison s name operand) : entry? on s = none := by
  obtain ⟨rest, hread, hrest⟩ := h.exists_read?
  rw [ entry?, trimStart_of_stops h.stops_isBlank, hread]
  split
  · next heq =>
    cases heq
    exact absurd (List.cons.inj (List.cons.inj hrest).2).1 (by decide)
  · rfl

theorem isStructural_comparison (h : IsComparison s name operand) : isStructural s = false := by
  obtain ⟨rest, hread, -⟩ := h.trim.exists_read?
  have hnotMem : trim s ∉ [[], "\x7d".toList, "\x7d,".toList, "\x7d;".toList] := by
    intro hm
    have hall : ∀ t ∈ [[], "\x7d".toList, "\x7d,".toList, "\x7d;".toList],
        Identifier.read? t = none := by decide
    rw [hall _ hm] at hread
    cases hread
  simpa [isStructural, and_assoc] using hnotMem

/-- A line that starts as a comparison is not understood. -/
theorem read_comparison (on : Bool) {indent : Text} (hi : isBlankText indent = true)
    (h : IsComparison s name operand) : read on (indent ++ s) = .unknown := by
  rw [read_blank_append hi, read, opened?_comparison h, entry?_comparison h.withoutComment,
    isStructural_comparison h.withoutComment]
  rfl

end Line

variable {xs ys : List Text}

theorem records_foundAt (n m : Nat) (x : Text) (current : Option Declaration) (line : Line) :
    (foundAt n x current line).filterMap Finding.record? =
      (foundAt m x current line).filterMap Finding.record? := by
  cases current <;> cases line <;> rfl

/-- Lines that are not understood are of no account for the records, and line numbers neither. -/
theorem records_findingsFrom_filter (n m : Nat) (current : Option Declaration) (xs : List Text) :
    (findingsFrom on n current xs).filterMap Finding.record? =
      (findingsFrom on m current (xs.filter (Line.read on · ≠ .unknown))).filterMap
        Finding.record? := by
  induction xs generalizing n m current with
  | nil => rfl
  | cons x xs ih =>
    by_cases hx : Line.read on x = .unknown
    · rw [List.filter_cons_of_neg (by simpa using hx), findingsFrom_cons, hx, List.filterMap_append,
        ← ih (n + 1)]
      cases current <;> rfl
    · rw [List.filter_cons_of_pos (by simpa using hx), findingsFrom_cons, findingsFrom_cons,
        List.filterMap_append, List.filterMap_append, ih _ (m + 1), records_foundAt n m]

theorem records_insert {o : Options} {source source' : Text}
    (h : Line.read o.spaceShifts line = .unknown) (hs : lines source = xs ++ line :: ys)
    (hs' : lines source' = xs ++ ys) : (parse o source).records = (parse o source').records := by
  have hfilter : (lines source).filter (Line.read o.spaceShifts · ≠ .unknown) =
      (lines source').filter (Line.read o.spaceShifts · ≠ .unknown) := by
    rw [hs, hs', List.filter_append, List.filter_append, List.filter_cons_of_neg (by simpa using h)]
  simp only [parse, findings, ofFindings]
  rw [records_findingsFrom_filter 1 1, hfilter, ← records_findingsFrom_filter 1 1]

end Listing

/-! ## In a cell -/

namespace Page.Initializer

variable {left cell segment : Text} {front back xs ys : List Text}

theorem spaceIf_equals_cons (on : Bool) (s : Text) : Shift.spaceIf on ('=' :: s) = '=' :: s := by
  cases on <;> rfl

theorem throughLastWord_equals_cons (s : Text) : throughLastWord ('=' :: s) =
    if s.any isWordChar then '=' :: throughLastWord s else [] := by
  have hempty : (s.reverse.dropWhile (!isWordChar ·)).isEmpty = !s.any isWordChar := by
    rw [Bool.eq_iff_iff]
    simp [List.dropWhile_eq_nil_iff]
  rw [throughLastWord, List.reverse_cons, List.dropWhile_append, hempty]
  cases s.any isWordChar with
  | false => rfl
  | true => simp [throughLastWord]

/-- The second equals sign is where the value starts, if there is one. -/
theorem member?_comparison (on : Bool) (h : IsComparison s name operand) : member? on s =
    if operand.any isWordChar then some ⟨name, '=' :: throughLastWord operand⟩ else none := by
  obtain ⟨rest, hread, hrest⟩ := h.exists_read?
  have hstart : trimStart ('=' :: operand) = '=' :: operand :=
    trimStart_of_stops (stops_cons.mpr rfl)
  rw [member?, hread]
  simp only [hrest, hstart, throughLastWord_equals_cons]
  split
  · rw [spaceIf_equals_cons, Listing.Line.mk?_eq_some_iff]
    exact ⟨h.1, rfl, rfl⟩
  · have hnil : Shift.spaceIf on [] = [] := by cases on <;> rfl
    rw [hnil, Constant.mk?]
    simp

theorem lineMembers_comparison (on : Bool) (hsegments : segments (listPart (trim line)) =
      xs ++ segment :: ys) (h : IsComparison (trim segment) name operand) :
    lineMembers on line = constants on xs ++
      (if operand.any isWordChar then [⟨name, '=' :: throughLastWord operand⟩] else []) ++
        constants on ys := by
  have hline : lineMembers on line = constants on (xs ++ segment :: ys) := by
    rw [lineMembers, hsegments]
    rfl
  rw [hline, constants_append, constants_cons, member?_comparison on h, List.append_assoc]
  split <;> rfl

end Page.Initializer

/-! ## The two together -/

/-- A piece of a cell that is a comparison gives a constant if, and only if, a word follows the
`==`, and the other constants are those of the other pieces.  As a line of a listing, indented or
not, the comparison is not understood, and the records are those of the other lines. -/
theorem constants_of_comparison (h : IsComparison s name operand) :
    (∀ (on : Bool) (left cell line segment : Text) (front back xs ys : List Text),
      lines cell = front ++ line :: back →
      Page.Initializer.segments (Page.Initializer.listPart (trim line)) = xs ++ segment :: ys →
      trim segment = s →
        (Page.Initializer.declaration on left cell).members =
          front.flatMap (Page.Initializer.lineMembers on) ++
            (Page.Initializer.constants on xs ++
              (if operand.any isWordChar then [⟨name, '=' :: throughLastWord operand⟩] else []) ++
              Page.Initializer.constants on ys) ++
          back.flatMap (Page.Initializer.lineMembers on)) ∧
      ∀ (o : Listing.Options) (indent source source' : Text) (front back : List Text),
        isBlankText indent = true → lines source = front ++ (indent ++ s) :: back →
        lines source' = front ++ back →
          Listing.Line.Unread o.spaceShifts (indent ++ s) ∧
            (Listing.parse o source).records = (Listing.parse o source').records := by
  constructor
  · rintro on left cell line segment front back xs ys hlines hsegments rfl
    change Page.Initializer.members on cell = _
    rw [Page.Initializer.members, hlines, List.flatMap_append, List.flatMap_cons,
      Page.Initializer.lineMembers_comparison on hsegments h]
    simp only [List.append_assoc]
  · intro o indent source source' front back hi hs hs'
    have hread := Listing.Line.read_comparison o.spaceShifts hi h
    exact ⟨Listing.Line.read_eq_unknown_iff.mp hread, Listing.records_insert hread hs hs'⟩

/-- The signature of an operator between two constants. -/
theorem constants_of_comparison_operator :
    let cell := "A = \x7b X = 1,\n  operator == (const Vector &other), Y = 2\x7d".toList
    let source := "A = \x7b\n  X = 1,\n  operator == (const Vector &other)\n\x7d\n".toList
    let source' := "A = \x7b\n  X = 1,\n\x7d\n".toList
    (Page.Initializer.declaration true [] cell).members = [⟨"X".toList, "1".toList⟩,
        ⟨"operator".toList, "= (const Vector &other".toList⟩, ⟨"Y".toList, "2".toList⟩] ∧
      Listing.Line.Unread true "  operator == (const Vector &other)".toList ∧
      (Listing.parse {} source).records = (Listing.parse {} source').records := by
  intro cell source source'
  have h : IsComparison "operator == (const Vector &other)".toList "operator".toList
      " (const Vector &other)".toList := ⟨rfl, " ".toList, rfl, rfl⟩
  obtain ⟨hcell, hlisting⟩ := constants_of_comparison h
  have hmembers := hcell true [] cell "  operator == (const Vector &other), Y = 2\x7d".toList
    "operator == (const Vector &other)".toList ["A = \x7b X = 1,".toList] [] []
    [" Y = 2\x7d".toList] (by decide) (by decide) (by decide)
  obtain ⟨hunread, hrecords⟩ := hlisting {} "  ".toList source source'
    ["A = \x7b".toList, "  X = 1,".toList] ["\x7d".toList] rfl (by decide) (by decide)
  exact ⟨hmembers.trans (by decide), hunread, hrecords⟩

-- The signature of an operator is a constant of its cell, although it assigns nothing.
theorem exists_constant_of_comparison :
    ¬ ∀ (on : Bool) (left cell line segment name operand : Text) (front back xs ys : List Text),
      lines cell = front ++ line :: back →
      Page.Initializer.segments (Page.Initializer.listPart (trim line)) = xs ++ segment :: ys →
      IsComparison (trim segment) name operand →
        (Page.Initializer.declaration on left cell).members =
          front.flatMap (Page.Initializer.lineMembers on) ++
            (Page.Initializer.constants on xs ++ Page.Initializer.constants on ys) ++
          back.flatMap (Page.Initializer.lineMembers on) := by
  intro hall
  have hmembers := hall false "bool".toList "operator== (const Vector &other)".toList
    "operator== (const Vector &other)".toList "operator== (const Vector &other)".toList
    "operator".toList " (const Vector &other)".toList [] [] [] [] (by decide) (by decide)
    ⟨by decide, [], by decide, by decide⟩
  revert hmembers
  decide

end Typings
