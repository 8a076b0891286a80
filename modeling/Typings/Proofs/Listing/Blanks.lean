import Typings.Proofs.Listing.Tables
import Typings.Proofs.Text.Line

/-!
# Blanks around the lines of a listing

A line is read without regard to the blanks at either end (`read_trim`), and a listing is no more
than what its lines are read as (`parse_congr`).
-/

namespace Typings

open Text

variable {a b s : Text}

/-! ## The readers of a line -/

namespace Listing

namespace Line

variable {spaceShifts : Bool}

theorem isPrefixOf_iff : "--".toList.isPrefixOf s = true ↔ ∃ t, s = '-' :: '-' :: t := by
  rw [List.isPrefixOf_iff_prefix]
  exact exists_congr fun t ↦ eq_comm

theorem ne_dash_of_isBlank {c : Char} (h : isBlank c = true) : c ≠ '-' := by
  rintro rfl
  cases h

theorem withoutComment_cons {c : Char} (hc : c ≠ '-') (s : Text) :
    withoutComment (c :: s) = c :: withoutComment s := by
  have hstop : ¬ "--".toList.isPrefixOf (c :: s) = true := by
    rw [isPrefixOf_iff]
    rintro ⟨t, e⟩
    exact hc (List.cons.inj e).1
  rw [withoutComment, breakOn, breakAt, if_neg hstop]
  rfl

theorem withoutComment_append (ha : '-' ∉ a) (s : Text) :
    withoutComment (a ++ s) = a ++ withoutComment s := by
  induction a with
  | nil => rfl
  | cons c a ih =>
    rw [List.mem_cons, not_or] at ha
    rw [List.cons_append, withoutComment_cons (Ne.symm ha.1), ih ha.2, List.cons_append]

theorem withoutComment_blank_append (ha : isBlankText a = true) (s : Text) :
    withoutComment (a ++ s) = a ++ withoutComment s :=
  withoutComment_append (notMem_of_isBlankText ha rfl) s

/-- Blanks behind a line are part of its comment, if it has one. -/
theorem exists_withoutComment_append (hb : isBlankText b = true) (s : Text) :
    ∃ b', isBlankText b' = true ∧ withoutComment (s ++ b) = withoutComment s ++ b' := by
  induction s with
  | nil =>
    have := withoutComment_blank_append hb []
    rw [List.append_nil] at this
    exact ⟨b, hb, this.trans (List.append_nil b)⟩
  | cons c s ih =>
    have hstop : "--".toList.isPrefixOf (c :: (s ++ b)) = "--".toList.isPrefixOf (c :: s) := by
      rw [Bool.eq_iff_iff, isPrefixOf_iff, isPrefixOf_iff]
      cases s with
      | cons => simp
      | nil =>
        -- A dash at the end of the line is no mark, as the next character is blank.
        have hb' : ∀ t, b ≠ '-' :: t := by
          rintro t rfl
          exact ne_dash_of_isBlank (isBlankText_iff.mp hb _ List.mem_cons_self) rfl
        simp [hb']
    obtain ⟨b', hb', e⟩ := ih
    simp only [withoutComment, breakOn, List.cons_append, breakAt, hstop] at e ⊢
    split
    · exact ⟨[], rfl, rfl⟩
    · exact ⟨b', hb', congrArg (c :: ·) e⟩

theorem trimValue_append_blank (hb : isBlankText b = true) (s : Text) :
    trimValue (s ++ b) = trimValue s := by
  rw [trimValue, trimValue, trimEnd_append_blank hb]

theorem IsClosed.not_blank {written value : Text} (h : IsClosed written value)
    (hv : isBlankText value = false) : isBlankText written = false := by
  obtain ⟨gap, comma, tail, rfl, -⟩ := h
  rw [List.append_assoc, List.append_assoc, ← Bool.not_eq_true, isBlankText_append, hv]
  exact fun h ↦ nomatch h.1

theorem entry?_blank_append (ha : isBlankText a = true) (s : Text) :
    entry? spaceShifts (a ++ s) = entry? spaceShifts s := by
  rw [ entry?, entry?, trimStart_blank_append ha]

theorem entry?_append_blank (hb : isBlankText b = true) (s : Text) :
    entry? spaceShifts (s ++ b) = entry? spaceShifts s := by
  refine Option.ext fun c ↦ ?_
  rw [entry?_eq_some_iff, entry?_eq_some_iff]
  constructor
  · rintro ⟨indent, written, value, e, hi, hn, hw, hv, hc⟩
    rcases List.append_eq_append_iff.mp e with ⟨u, -, rfl⟩ | ⟨u, e', rfl⟩
    · -- The value cannot be among the blanks.
      have hblank := (isBlankText_append.mp hb).2
      rw [hw.not_blank hv] at hblank
      cases hblank
    · rw [← trimValue_eq_iff, trimValue_append_blank hb, trimValue_eq_iff] at hw
      exact ⟨indent, u, value, e', hi, hn, hw, hv, hc⟩
  · rintro ⟨indent, written, value, rfl, hi, hn, hw, hv, hc⟩
    refine ⟨indent, written ++ b, value, by simp, hi, hn, ?_, hv, hc⟩
    rw [← trimValue_eq_iff, trimValue_append_blank hb]
    exact trimValue_eq_iff.mpr hw

theorem isStructural_blank_append (ha : isBlankText a = true) (s : Text) :
    isStructural (a ++ s) = isStructural s := by
  rw [isStructural, isStructural, trim_blank_append ha]

theorem isStructural_append_blank (hb : isBlankText b = true) (s : Text) :
    isStructural (s ++ b) = isStructural s := by
  rw [isStructural, isStructural, trim_append_blank hb]

theorem read_blank_append (ha : isBlankText a = true) (s : Text) :
    read spaceShifts (a ++ s) = read spaceShifts s := by
  rw [read, read, opened?, opened?, trim_blank_append ha, withoutComment_blank_append ha,
    entry?_blank_append ha, isStructural_blank_append ha]

theorem read_append_blank (hb : isBlankText b = true) (s : Text) :
    read spaceShifts (s ++ b) = read spaceShifts s := by
  obtain ⟨b', hb', e⟩ := exists_withoutComment_append hb s
  rw [read, read, opened?, opened?, trim_append_blank hb, e, entry?_append_blank hb',
    isStructural_append_blank hb']

/-- The blanks at either end of a line are of no account. -/
theorem read_trim (spaceShifts : Bool) (line : Text) :
    read spaceShifts (trim line) = read spaceShifts line := by
  obtain ⟨a, b, ha, hb, e⟩ := exists_eq_blank_append_trim line
  conv_rhs => rw [e, read_append_blank hb, read_blank_append ha]

end Line

/-! ## Listings -/

namespace Finding

/-- What was found, without the text of a line that was not understood. -/
def withoutText : Finding → Finding
  | .table d => .table d
  | .skipped line owner => .skipped ⟨line.number, []⟩ owner

theorem record?_withoutText (f : Finding) : f.withoutText.record? = f.record? := by
  cases f <;> rfl

theorem skipped?_withoutText (f : Finding) :
    f.withoutText.skipped?.map SkippedLine.number = f.skipped?.map SkippedLine.number := by
  cases f <;> rfl

end Finding

variable {spaceShifts : Bool} {xs ys : List Text} {o : Options} {source source' : Text}

theorem withoutText_foundAt (n : Nat) (x y : Text) (current : Option Declaration) (line : Line) :
    (foundAt n x current line).map Finding.withoutText =
      (foundAt n y current line).map Finding.withoutText := by
  cases current <;> cases line <;> rfl

/-- What is found in lines rests on what each of them is read as. -/
theorem findingsFrom_congr
    (h : List.Forall₂ (fun x y ↦ Line.read spaceShifts x = Line.read spaceShifts y) xs ys)
    (n : Nat) (current : Option Declaration) :
    (findingsFrom spaceShifts n current xs).map Finding.withoutText =
      (findingsFrom spaceShifts n current ys).map Finding.withoutText := by
  induction h generalizing n current with
  | nil => rfl
  | @cons x y xs ys hxy _ ih =>
    rw [findingsFrom_cons, findingsFrom_cons, hxy, List.map_append, List.map_append, ih,
      withoutText_foundAt n x y]

/-- Sources whose lines are read as the same give the same records, and skip the same lines. -/
theorem parse_congr (h : List.Forall₂
      (fun x y ↦ Line.read o.spaceShifts x = Line.read o.spaceShifts y)
      (lines source) (lines source')) :
    (parse o source).records = (parse o source').records ∧
      (parse o source).skipped.map SkippedLine.number =
        (parse o source').skipped.map SkippedLine.number := by
  have hfindings := findingsFrom_congr h 1 none
  have hrecords : ∀ fs, List.filterMap Finding.record? fs =
      (fs.map Finding.withoutText).filterMap Finding.record? := by
    intro fs
    rw [List.filterMap_map]
    exact List.filterMap_congr fun f _ ↦ (Finding.record?_withoutText f).symm
  have hskipped : ∀ fs, (List.filterMap Finding.skipped? fs).map SkippedLine.number =
      ((fs.map Finding.withoutText).filterMap Finding.skipped?).map SkippedLine.number := by
    intro fs
    rw [List.filterMap_map, List.map_filterMap, List.map_filterMap]
    exact List.filterMap_congr fun f _ ↦ (Finding.skipped?_withoutText f).symm
  simp only [parse, findings, ofFindings]
  rw [hrecords, hskipped, hfindings, ← hrecords, ← hskipped]
  exact ⟨rfl, rfl⟩

end Listing

end Typings
