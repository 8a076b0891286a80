import Typings.Proofs.Declaration.WellFormed
import Typings.Proofs.Spacing

/-!
# Which literals stay unspaced

No value that was spaced is itself a literal (`not_isLiteral_space`), so a literal without spaces
can only be left in it behind further blanks.  A cell has none at the start of a value.  A line of a
listing has them where more blanks than one space stand behind the equals sign, and there the
literal stays as it is (`isUnspaced_iff_setsOff`).
-/

namespace Typings

open Text

variable {s v left right : Text}

/-- Blanks aside, the value is a shift literal without spaces. -/
def Shift.IsUnspaced (v : Text) : Prop := ∃ left right, IsLiteral (trim v) left right

/-- The value is a shift literal behind blanks. -/
def Shift.IsSetOff (v : Text) : Prop :=
  ∃ gap literal left right, v = gap ++ literal ∧ gap ≠ [] ∧ isBlankText gap = true ∧
    IsLiteral literal left right

/-- The line gives a constant of this name, and a shift literal stands behind its equals sign with
blanks between them besides the one space. -/
def Listing.Line.SetsOff (line name : Text) : Prop :=
  ∃ value, Gives false line ⟨name, value⟩ ∧ Shift.IsSetOff value

namespace Text

/-- Trimming leaves a text as it is if there is a blank at neither end. -/
theorem trim_eq_self (hhead : Stops isBlank s) (hlast : ∀ c ∈ s.getLast?, isBlank c = false) :
    trim s = s := by
  rw [trim, trimStart_of_stops hhead, trimEnd_eq_self_iff.mpr hlast]

/-- Only the start of a text is trimmed if no blank is at its end. -/
theorem exists_eq_append_trim (h : trimEnd s = s) :
    ∃ gap, isBlankText gap = true ∧ s = gap ++ trim s := by
  refine ⟨s.takeWhile isBlank, isBlankText_takeWhile s, ?_⟩
  have hparts : s.takeWhile isBlank ++ trimStart s = s := List.takeWhile_append_dropWhile
  have htrim : trim s = trimStart s := by
    rw [trim, trimEnd_eq_self_iff]
    intro c hc
    apply trimEnd_eq_self_iff.mp h
    rw [← hparts]
    exact List.mem_getLast?_append_of_mem_getLast? hc
  rw [htrim, hparts]

theorem isBlank_of_isDecimalDigit {c : Char} (h : isDecimalDigit c = true) : isBlank c = false :=
  isBlank_eq_false (of_isBlank (P := fun c ↦ isDecimalDigit c = false) (by decide +kernel)) h

end Text

/-! ## Literals and blanks -/

namespace Shift

theorem not_isLiteral_space (v left right : Text) : ¬ IsLiteral (space v) left right := by
  intro h
  have hspace : left ++ " << ".toList ++ right = left ++ "<<".toList ++ right := by
    rw [← space_of_isLiteral h, space_space, h.eq]
  have hlength := congrArg List.length hspace
  simp only [List.length_append] at hlength
  change left.length + 4 + right.length = left.length + 2 + right.length at hlength
  omega

namespace IsLiteral

theorem stops_isBlank (h : IsLiteral s left right) : Stops isBlank s := by
  intro c hc
  rw [h.eq, List.append_assoc, List.head?_append_of_ne_nil _ h.left_ne_nil] at hc
  exact isBlank_of_isDecimalDigit (h.left_digits c (List.mem_of_head? hc))

theorem isBlank_getLast? (h : IsLiteral s left right) : ∀ c ∈ s.getLast?, isBlank c = false := by
  intro c hc
  rw [h.eq, List.getLast?_append_of_ne_nil _ h.right_ne_nil] at hc
  exact isBlank_of_isDecimalDigit (h.right_digits c (List.mem_of_getLast? hc))

theorem trim_eq (h : IsLiteral s left right) : trim s = s :=
  trim_eq_self h.stops_isBlank h.isBlank_getLast?

theorem trim_space (h : IsLiteral s left right) : trim (space s) = space s := by
  apply trim_eq_self
  · rw [Stops, head?_space]
    exact h.stops_isBlank
  · rw [getLast?_space]
    exact h.isBlank_getLast?

end IsLiteral

/-- Blanks in front of a literal keep it from being one. -/
theorem IsSetOff.not_isLiteral (h : IsSetOff v) : ¬ IsLiteral v left right := by
  obtain ⟨gap, literal, -, -, rfl, hne, hgap, -⟩ := h
  intro hv
  obtain ⟨c, gap, rfl⟩ := List.exists_cons_of_ne_nil hne
  have hc : isBlank c = true := isBlankText_iff.mp hgap c List.mem_cons_self
  rw [hv.stops_isBlank c rfl] at hc
  cases hc

theorem space_eq_self (h : ∀ left right, ¬ IsLiteral v left right) : space v = v := by
  rcases space_cases v with hv | ⟨left, right, hliteral, -⟩
  · exact hv
  · exact absurd hliteral (h left right)

/-- A value without blanks at its end has an unspaced literal after spacing if, and only if, the
literal was set off. -/
theorem isUnspaced_space_iff (hv : trimEnd v = v) : IsUnspaced (space v) ↔ IsSetOff v := by
  constructor
  · rintro ⟨left, right, h⟩
    have hliteral : ∀ left right, ¬ IsLiteral v left right := by
      intro left' right' hliteral
      rw [hliteral.trim_space] at h
      exact not_isLiteral_space v left right h
    rw [space_eq_self hliteral] at h
    obtain ⟨gap, hgap, e⟩ := exists_eq_append_trim hv
    refine ⟨gap, trim v, left, right, e, ?_, hgap, h⟩
    rintro rfl
    rw [List.nil_append] at e
    rw [← e] at h
    exact hliteral left right h
  · intro h
    rw [IsUnspaced, space_eq_self fun _ _ ↦ h.not_isLiteral]
    obtain ⟨gap, literal, left, right, rfl, -, hgap, hliteral⟩ := h
    rw [trim_blank_append hgap, hliteral.trim_eq]
    exact ⟨left, right, hliteral⟩

end Shift

/-! ## Lines and cells -/

namespace Listing.Line

variable {line : Text} {c : Constant}

/-- A line gives one value. -/
theorem Gives.value_eq {on : Bool} {c' : Constant} (h : Gives on line c) (h' : Gives on line c') :
    c.value = c'.value := by
  rw [← entry?_withoutComment_eq_some_iff] at h h'
  rw [h] at h'
  cases h'
  rfl

/-- The value that a line gives with spacing is an unspaced literal if, and only if, the line sets
one off. -/
theorem Gives.isUnspaced_iff (h : Gives true line c) :
    Shift.IsUnspaced c.value ↔ SetsOff line c.name := by
  obtain ⟨indent, written, value, hcode, hindent, hname, hclosed, hblank, hc⟩ := h
  have hvalue : Gives false line ⟨c.name, value⟩ :=
    ⟨indent, written, value, hcode, hindent, hname, hclosed, hblank, rfl⟩
  obtain ⟨-, -, -, -, -, -, htrimmed, -⟩ := hclosed
  have hspaced : Shift.IsUnspaced c.value ↔ Shift.IsSetOff value := by
    rw [hc]
    exact Shift.isUnspaced_space_iff htrimmed
  rw [hspaced]
  constructor
  · intro hset
    exact ⟨value, hvalue, hset⟩
  · rintro ⟨value', hvalue', hset⟩
    rwa [show value = value' from hvalue.value_eq hvalue']

end Listing.Line

namespace Page.Initializer

variable {c : Constant}

/-- With spacing a cell gives no unspaced literal. -/
theorem not_isUnspaced_of_mem_members (h : c ∈ (declaration true left right).members) :
    ¬ Shift.IsUnspaced c.value := by
  have hcut : IsCutOut c.value := (isRow_declaration true left right).values_cutOut c h
  change c ∈ members true right at h
  rw [members_eq_map] at h
  obtain ⟨c', -, rfl⟩ := List.mem_map.mp h
  have hhead := hcut.stops_append []
  rw [List.append_nil] at hhead
  rintro ⟨left', right', hliteral⟩
  rw [trim_eq_self hhead hcut.isBlank_getLast?] at hliteral
  exact Shift.not_isLiteral_space c'.value left' right' hliteral

end Page.Initializer

/-- If values are spaced, no cell gives an unspaced literal.  A listing gives one just where a line
sets it off from the equals sign. -/
theorem isUnspaced_iff_setsOff :
    (∀ left right, ∀ c ∈ (Page.Initializer.declaration true left right).members,
      ¬ Shift.IsUnspaced c.value) ∧
    ∀ (o : Listing.Options) (source : Text),
      ∀ d ∈ (Listing.parse { o with spaceShifts := true } source).records, ∀ c ∈ d.members,
        ∃ line ∈ lines source, Listing.Line.Gives true line c ∧
          (Shift.IsUnspaced c.value ↔ Listing.Line.SetsOff line c.name) := by
  constructor
  · intro left right c hc
    exact Page.Initializer.not_isUnspaced_of_mem_members hc
  · intro o source d hd c hc
    obtain ⟨line, hline, hgives⟩ := Listing.exists_gives_of_mem_members hd hc
    exact ⟨line, hline, hgives, hgives.isUnspaced_iff⟩

/-- The same two spaces behind an equals sign, in a cell and in a listing. -/
theorem isUnspaced_iff_setsOff_flags :
    let source := "Flags = \x7b\n  A = 1<<2,\n  B =  1<<3,\n\x7d\n".toList
    let table : Declaration := ⟨Declaration.enumKind, "Flags".toList,
      [⟨"A".toList, "1 << 2".toList⟩, ⟨"B".toList, " 1<<3".toList⟩]⟩
    let row : Declaration := ⟨"enum".toList, "Flags".toList, [⟨"B".toList, "1 << 3".toList⟩]⟩
    (Listing.parse { spaceShifts := true } source).records = [table] ∧
      Page.Initializer.declaration true "enum".toList "Flags \x7b B =  1<<3 \x7d".toList = row ∧
      (∃ line ∈ lines source, Listing.Line.SetsOff line "B".toList) ∧
      ¬ Shift.IsUnspaced "1 << 3".toList := by
  intro source table row
  have htable : (Listing.parse { spaceShifts := true } source).records = [table] := by
    decide +kernel
  have hrow : Page.Initializer.declaration true "enum".toList "Flags \x7b B =  1<<3 \x7d".toList =
      row := by
    decide +kernel
  have hliteral : Shift.IsUnspaced " 1<<3".toList :=
    ⟨"1".toList, "3".toList, Shift.operands?_eq_some_iff.mp (by decide)⟩
  obtain ⟨line, hline, -, hset⟩ := isUnspaced_iff_setsOff.2 {} source table
    (htable ▸ List.mem_cons_self) ⟨"B".toList, " 1<<3".toList⟩
    (List.mem_cons_of_mem _ List.mem_cons_self)
  refine ⟨htable, hrow, ⟨line, hline, hset.mp hliteral⟩, ?_⟩
  exact isUnspaced_iff_setsOff.1 "enum".toList "Flags \x7b B =  1<<3 \x7d".toList
    ⟨"B".toList, "1 << 3".toList⟩ (hrow ▸ List.mem_cons_self)

-- A listing keeps the blanks in front of a value, and the literal with them.
theorem exists_isUnspaced :
    ¬ ((∀ left right, ∀ c ∈ (Page.Initializer.declaration true left right).members,
        ¬ Shift.IsUnspaced c.value) ∧
      ∀ (o : Listing.Options) (source : Text), o.spaceShifts = true →
        ∀ d ∈ (Listing.parse o source).records, ∀ c ∈ d.members, ¬ Shift.IsUnspaced c.value) := by
  rintro ⟨-, hall⟩
  let table : Declaration := ⟨Declaration.enumKind, "A".toList, [⟨"X".toList, " 1<<2".toList⟩]⟩
  have htable : table ∈ (Listing.parse {} "A = \x7b\n  X =  1<<2,\n\x7d\n".toList).records := by
    decide +kernel
  refine hall {} _ rfl table htable _ List.mem_cons_self ?_
  exact ⟨"1".toList, "2".toList, Shift.operands?_eq_some_iff.mp (by decide)⟩

end Typings
