import Typings.Proofs.Listing.Blanks

/-!
# Comments in a listing

A line is read as what stands before its comment (`read_uncommented`), with one exception: it opens
a table only if it has no comment.  So the records of a listing are those of its lines without their
comments, but for the lines that would then open a table (`parse_uncommented`).
-/

namespace Typings

open Text

namespace Listing

namespace Line

variable {spaceShifts : Bool} {line name : Text}

/-- A line would open a table if it had no comment. -/
def HidesOpener (line : Text) : Prop := IsOpener (withoutComment line) ∧ ¬ IsOpener line

instance (line : Text) : Decidable (IsOpener line) :=
  decidable_of_iff ((opened? line).isSome = true) <| by
    rw [Option.isSome_iff_exists]
    exact exists_congr fun _ ↦ opened?_eq_some_iff

instance (line : Text) : Decidable (HidesOpener line) :=
  inferInstanceAs (Decidable (IsOpener (withoutComment line) ∧ ¬ IsOpener line))

/-- A line without its comment, unless that makes it open a table. -/
def uncommented (line : Text) : Text := if HidesOpener line then line else withoutComment line

theorem withoutComment_withoutComment (line : Text) :
    withoutComment (withoutComment line) = withoutComment line :=
  withoutComment_eq_iff.mpr (isCode_self (withoutComment_eq_iff.mp rfl).not_hasComment)

/-- A line that opens a table has no comment. -/
theorem Opens.withoutComment_eq (h : Opens line name) : withoutComment line = line := by
  obtain ⟨indent, tail, hi, ht, hn, rfl⟩ := h
  have hindent : '-' ∉ indent := notMem_of_isBlankText hi rfl
  have hname : '-' ∉ name := Identifier.notMem_of_check hn rfl
  have htail : '-' ∉ tail := notMem_of_isBlankText ht rfl
  have hline : '-' ∉ indent ++ (name ++ " = \x7b".toList) ++ tail := by
    simp [hindent, hname, htail]
  have hrest := withoutComment_append hline []
  rw [List.append_nil] at hrest
  exact hrest.trans (List.append_nil _)

theorem IsOpener.withoutComment_eq (h : IsOpener line) : withoutComment line = line := by
  obtain ⟨name, hn⟩ := h
  exact hn.withoutComment_eq

theorem read_uncommented (spaceShifts : Bool) (line : Text) :
    read spaceShifts (uncommented line) = read spaceShifts line := by
  rw [uncommented]
  split
  · rfl
  · next h =>
    by_cases ho : IsOpener line
    · rw [ho.withoutComment_eq]
    · have ho' : ¬ IsOpener (withoutComment line) := fun ho' ↦ h ⟨ho', ho⟩
      rw [read_of_not_isOpener ho, read_of_not_isOpener ho', withoutComment_withoutComment]

/-- Instead of opening a table, the line gives a constant with the brace as its value. -/
theorem HidesOpener.read (h : HidesOpener line) (spaceShifts : Bool) :
    ∃ name, Opens (withoutComment line) name ∧
      read spaceShifts line = .entry ⟨name, "\x7b".toList⟩ := by
  obtain ⟨⟨name, hn⟩, ho⟩ := h
  refine ⟨name, hn, Gives.read ?_ ho⟩
  obtain ⟨indent, tail, hi, ht, hcheck, e⟩ := hn
  refine ⟨indent, "\x7b".toList ++ tail, "\x7b".toList, ?_, hi, hcheck, ?_, by decide, ?_⟩
  · exact withoutComment_eq_iff.mp (e.trans (by simp))
  · exact ⟨[], [], tail, by simp, rfl, ht, by decide, .inr ⟨rfl, by decide⟩⟩
  · cases spaceShifts <;> rfl

end Line

/-! ## Sources -/

/-- The source with each of its lines changed. -/
def mapLines (f : Text → Text) (source : Text) : Text :=
  (lines source).flatMap fun line ↦ f line ++ ['\n']

variable {f : Text → Text} {spaceShifts : Bool} {ls : List Text}

/-- Changed lines are read as the lines of the source that is made of them. -/
theorem read_lines_flatMap (spaceShifts : Bool) (h : ∀ line ∈ ls, '\n' ∉ f line) :
    List.Forall₂ (fun line line' ↦ Line.read spaceShifts line' = Line.read spaceShifts (f line)) ls
      (lines (ls.flatMap fun line ↦ f line ++ ['\n'])) := by
  induction ls with
  | nil => exact .nil
  | cons line ls ih =>
    rw [List.forall_mem_cons] at h
    obtain ⟨line', tail, e, htail, hlines⟩ := exists_lines_append_newline h.1
      (ls.flatMap fun line ↦ f line ++ ['\n'])
    have hblank : isBlankText tail = true := by
      rcases htail with rfl | rfl <;> rfl
    rw [List.flatMap_cons, List.append_assoc, List.singleton_append, hlines]
    exact .cons (by rw [e, Line.read_append_blank hblank]) (ih h.2)

theorem newline_notMem_uncommented {line : Text} (h : '\n' ∉ line) :
    '\n' ∉ Line.uncommented line := by
  rw [Line.uncommented]
  split
  · exact h
  · rw [← breakAt_append "--".toList.isPrefixOf line] at h
    exact fun hm ↦ h (List.mem_append_left _ hm)

/-- Comments make no difference to the records of a listing, but that a line with a comment opens no
table: it gives a constant where it would open one without. -/
theorem parse_uncommented (o : Options) (source : Text) :
    (parse o (mapLines Line.uncommented source)).records = (parse o source).records ∧
      ∀ line, Line.HidesOpener line → ∃ name, Line.Opens (Line.withoutComment line) name ∧
        Line.read o.spaceShifts line = .entry ⟨name, "\x7b".toList⟩ := by
  have hlines : ∀ line ∈ lines source, '\n' ∉ Line.uncommented line :=
    fun _ hline ↦ newline_notMem_uncommented (newline_notMem_of_mem_lines hline)
  have hread := read_lines_flatMap o.spaceShifts hlines
  simp only [Line.read_uncommented] at hread
  exact ⟨(parse_congr (hread.imp fun _ _ h ↦ h.symm)).1.symm, fun line h ↦ h.read o.spaceShifts⟩

/-- Behind an opener with a comment, the constants of its table go to the one before it. -/
theorem records_withoutComment_ne :
    let source := "A = \x7b\n  X = 1, -- x\n\x7d\nB = \x7b -- b\n  Y = 2,\n\x7d\n".toList
    (parse {} (mapLines Line.withoutComment source)).records ≠ (parse {} source).records ∧
      (parse {} source).records = [⟨Declaration.enumKind, "A".toList,
        [⟨"X".toList, "1".toList⟩, ⟨"B".toList, "\x7b".toList⟩, ⟨"Y".toList, "2".toList⟩]⟩] := by
  decide +kernel

/-- The comment behind the opener is kept, and the other one is not. -/
theorem parse_uncommented_opener :
    let source := "A = \x7b\n  X = 1, -- x\n\x7d\nB = \x7b -- b\n  Y = 2,\n\x7d\n".toList
    mapLines Line.uncommented source =
        "A = \x7b\n  X = 1, \n\x7d\nB = \x7b -- b\n  Y = 2,\n\x7d\n".toList ∧
      (parse {} (mapLines Line.uncommented source)).records = (parse {} source).records ∧
      ∃ name, Line.read true "B = \x7b -- b".toList = .entry ⟨name, "\x7b".toList⟩ := by
  intro source
  obtain ⟨hrecords, hopener⟩ := parse_uncommented {} source
  have hhides : Line.HidesOpener "B = \x7b -- b".toList := by decide
  obtain ⟨name, -, hname⟩ := hopener _ hhides
  exact ⟨by decide, hrecords, name, hname⟩

end Listing

end Typings
