import Typings.Listing.Line
import Typings.Proofs.Identifier
import Typings.Proofs.Shift

/-!
# What the lines of a listing say

Each kind of line has a description that mentions no reader: a line that opens a table, one that
gives a constant and one that stands in a table by right are told by the parts that they are put
together from.  `opened?_eq_some_iff`, `entry?_withoutComment_eq_some_iff` and `isStructural_iff`
say that the readers find just these lines.
-/

namespace Typings.Listing.Line

open Text

variable {spaceShifts : Bool} {line code s t value name : Text} {c : Constant}

/-! ## Descriptions -/

/-- `code` is the part of a line before its comment: all of it, or what is before its first `--`. -/
def IsCode (line code : Text) : Prop :=
  ∃ rest, line = code ++ rest ∧ IsCut "--".toList.isPrefixOf code rest

/-- `s` writes a value and closes it: behind the value, which ends in no blank, are blanks, a comma
if there is one, and blanks. -/
def IsClosed (s value : Text) : Prop :=
  ∃ gap comma tail, s = value ++ gap ++ comma ++ tail ∧ isBlankText gap = true ∧
    isBlankText tail = true ∧ trimEnd value = value ∧
    (comma = ",".toList ∨ comma = [] ∧ value.getLast? ≠ some ',')

/-- A line opens a table if it is an identifier and then exactly ` = {`, but for blanks at either
end. -/
def Opens (line name : Text) : Prop :=
  ∃ indent tail, isBlankText indent = true ∧ isBlankText tail = true ∧
    Identifier.check name = true ∧ line = indent ++ (name ++ " = \x7b".toList) ++ tail

/-- A line gives a constant if it has, before its comment, blanks, an identifier, ` = ` and a value
that is not blank. Its shift literals are spaced on request. -/
def Gives (spaceShifts : Bool) (line : Text) (c : Constant) : Prop :=
  ∃ indent written value, IsCode line (indent ++ c.name ++ " = ".toList ++ written) ∧
    isBlankText indent = true ∧ Identifier.check c.name = true ∧ IsClosed written value ∧
    isBlankText value = false ∧ c.value = Shift.spaceIf spaceShifts value

/-- A line stands in a table by right if it has nothing before its comment, blanks aside, or a
closing brace, and then at most a comma or a semicolon. -/
def Structural (line : Text) : Prop :=
  ∃ indent core tail, IsCode line (indent ++ core ++ tail) ∧ isBlankText indent = true ∧
    isBlankText tail = true ∧
    core ∈ [[], "\x7d".toList, "\x7d,".toList, "\x7d;".toList]

/-- A line opens some table. -/
def IsOpener (line : Text) : Prop := ∃ name, Opens line name

/-- A line says nothing that is understood. -/
def Unread (spaceShifts : Bool) (line : Text) : Prop :=
  ¬ IsOpener line ∧ (∀ c, ¬ Gives spaceShifts line c) ∧ ¬ Structural line

/-! ## Comments -/

/-- The text holds the mark that starts a comment. -/
def HasComment (s : Text) : Prop := "--".toList <:+: s

instance (s : Text) : Decidable (HasComment s) := inferInstanceAs (Decidable (_ <:+: s))

theorem not_hasComment_of_notMem (h : '-' ∉ s) : ¬ HasComment s :=
  fun hc ↦ h (hc.subset (by decide))

theorem hasComment_cons {x : Char} (hx : x ≠ '-') : HasComment (x :: t) ↔ HasComment t := by
  have hmark : "--".toList = ['-', '-'] := rfl
  rw [HasComment, List.infix_cons_iff, hmark, List.cons_prefix_cons]
  simp [hx.symm, HasComment]

/-- The mark does not reach over a character that is no part of it. -/
theorem hasComment_append_cons {x : Char} (hx : x ≠ '-') :
    HasComment (s ++ x :: t) ↔ HasComment s ∨ HasComment t := by
  rw [HasComment, List.infix_append_iff_ne_nil]
  refine or_congr_right ⟨?_, fun h ↦ .inl ((hasComment_cons hx).mpr h)⟩
  rintro (h | ⟨l, r, hl, hr, e, -, hp⟩)
  · exact (hasComment_cons hx).mp h
  · cases l with
    | nil => exact absurd rfl hl
    | cons y l =>
      cases r with
      | nil => exact absurd rfl hr
      | cons z r =>
        have hz : z ∈ "--".toList := e ▸ List.mem_append_right _ List.mem_cons_self
        have hz : z = '-' := by simpa using hz
        exact absurd (List.cons_prefix_cons.mp hp).1.symm (hz ▸ hx)

theorem IsCode.not_hasComment (h : IsCode line code) : ¬ HasComment code := by
  rintro ⟨u, v, e⟩
  obtain ⟨rest, -, hcut⟩ := h
  have := hcut.goesOn ("--".toList ++ v) (by simp) ⟨u, by rw [← e, List.append_assoc]⟩
  simp at this

theorem isCode_self (h : ¬ HasComment s) : IsCode s s := by
  refine ⟨[], (List.append_nil s).symm, .inl rfl, fun v _ hv ↦ ?_⟩
  rw [List.append_nil, Bool.eq_false_iff, ne_eq, List.isPrefixOf_iff_prefix]
  exact fun hp ↦ h (hp.isInfix.trans hv.isInfix)

/-! ## The readers of a part -/

theorem withoutComment_eq_iff : withoutComment line = code ↔ IsCode line code := by
  constructor
  · rintro rfl
    exact ⟨_, (breakAt_append _ line).symm, isCut_breakAt _ line⟩
  · rintro ⟨rest, rfl, h⟩
    rw [withoutComment, breakOn, breakAt_of_isCut h]

theorem trimValue_of_comma (ht : isBlankText t = true) (s : Text) :
    trimValue (s ++ ",".toList ++ t) = trimEnd s := by
  have : trimEnd (s ++ ",".toList ++ t) = s ++ [','] := by
    rw [trimEnd_append_blank ht]
    exact trimEnd_concat (by decide) s
  rw [trimValue, this]
  simp

theorem trimValue_of_getLast?_ne (h : (trimEnd s).getLast? ≠ some ',') :
    trimValue s = trimEnd s := by
  unfold trimValue
  rcases List.eq_nil_or_concat (trimEnd s) with e | ⟨init, last, e⟩
  · rw [e]
    rfl
  · rw [e] at h ⊢
    have hne : last ≠ ',' := by simpa using h
    rw [List.concat_eq_append, List.reverse_append]
    simp [hne]

theorem trimValue_eq_iff : trimValue s = value ↔ IsClosed s value := by
  constructor
  · rintro rfl
    obtain ⟨tail, ht, hs⟩ := exists_eq_trimEnd_append s
    by_cases h : (trimEnd s).getLast? = some ','
    · obtain ⟨init, hinit⟩ := List.getLast?_eq_some_iff.mp h
      obtain ⟨gap, hg, hi⟩ := exists_eq_trimEnd_append init
      have hv : trimValue s = trimEnd init := by
        rw [hs, hinit]
        exact trimValue_of_comma ht init
      refine ⟨gap, ",".toList, tail, ?_, hg, ht, by simp [hv], .inl rfl⟩
      rw [hv, ← hi]
      exact hs.trans (by rw [hinit]; rfl)
    · rw [trimValue_of_getLast?_ne h]
      exact ⟨[], [], tail, by simpa using hs, rfl, ht, trimEnd_trimEnd s, .inr ⟨rfl, h⟩⟩
  · rintro ⟨gap, comma, tail, rfl, hg, ht, hv, rfl | ⟨rfl, hl⟩⟩
    · rw [trimValue_of_comma ht, trimEnd_append_blank hg, hv]
    · have : trimEnd (value ++ gap ++ [] ++ tail) = value := by
        rw [trimEnd_append_blank ht, List.append_nil, trimEnd_append_blank hg, hv]
      rw [trimValue_of_getLast?_ne (by rwa [this]), this]

theorem isBlankText_spaceIf (on : Bool) (s : Text) :
    isBlankText (Shift.spaceIf on s) = isBlankText s := by
  cases on
  · rfl
  · exact Shift.isBlankText_space s

theorem mk?_eq_some_iff :
    Constant.mk? name value = some c ↔
      Identifier.check name = true ∧ isBlankText value = false ∧ c = ⟨name, value⟩ := by
  unfold Constant.mk?
  split
  · next h =>
    rw [Bool.and_eq_true, Bool.not_eq_true'] at h
    simp [h.1, h.2, eq_comm]
  · next h =>
    rw [Bool.and_eq_true, Bool.not_eq_true', not_and] at h
    simpa using fun h₁ h₂ ↦ absurd h₂ (h h₁)

/-! ## The readers of a line -/

theorem opened?_eq_some_iff : opened? line = some name ↔ Opens line name := by
  constructor
  · intro h
    unfold opened? at h
    split at h
    · next n rest hr =>
      split at h
      · next hrest =>
        cases h
        obtain ⟨e, hn, -⟩ := Identifier.read?_eq_some_iff.mp hr
        obtain ⟨indent, tail, hi, ht, hl⟩ := exists_eq_blank_append_trim line
        exact ⟨indent, tail, hi, ht, hn, by rw [hl, e, hrest]⟩
      · cases h
    · cases h
  · rintro ⟨indent, tail, hi, ht, hn, rfl⟩
    have hend : trimEnd (name ++ " = \x7b".toList) = name ++ " = \x7b".toList := by
      simpa using trimEnd_concat (c := '{') (by decide) (name ++ " = ".toList)
    have hread : Identifier.read? (name ++ " = \x7b".toList) = some (name, " = \x7b".toList) :=
      Identifier.read?_eq_some_iff.mpr ⟨rfl, hn, by simp; decide⟩
    rw [opened?, trim_blank_append_blank hi ht (Identifier.stops_isBlank_append hn _) hend, hread]
    simp

theorem entry?_eq_some_iff : entry? spaceShifts code = some c ↔
    ∃ indent written value, code = indent ++ c.name ++ " = ".toList ++ written ∧
      isBlankText indent = true ∧ Identifier.check c.name = true ∧ IsClosed written value ∧
      isBlankText value = false ∧ c.value = Shift.spaceIf spaceShifts value := by
  constructor
  · intro h
    unfold entry? at h
    split at h
    · next n written hr =>
      obtain ⟨e, hn, -⟩ := Identifier.read?_eq_some_iff.mp hr
      obtain ⟨-, hb, rfl⟩ := mk?_eq_some_iff.mp h
      rw [isBlankText_spaceIf] at hb
      refine ⟨code.takeWhile isBlank, written, trimValue written, ?_, isBlankText_takeWhile code,
        hn, trimValue_eq_iff.mp rfl, hb, rfl⟩
      have := List.takeWhile_append_dropWhile (p := isBlank) (l := code)
      rw [← trimStart, e] at this
      simpa using this.symm
    · cases h
  · rintro ⟨indent, written, value, rfl, hi, hn, hw, hb, hv⟩
    have hread : Identifier.read? (c.name ++ " = ".toList ++ written) =
        some (c.name, " = ".toList ++ written) := by
      rw [Identifier.read?_eq_some_iff, List.append_assoc]
      exact ⟨rfl, hn, by simp; decide⟩
    rw [ entry?, List.append_assoc, List.append_assoc, trimStart_blank_append hi,
      trimStart_of_stops (Identifier.stops_isBlank_append hn _), ← List.append_assoc, hread]
    change Constant.mk? c.name (Shift.spaceIf spaceShifts (trimValue written)) = some c
    rw [trimValue_eq_iff.mpr hw, mk?_eq_some_iff, isBlankText_spaceIf, ← hv]
    exact ⟨hn, hb, rfl⟩

theorem entry?_withoutComment_eq_some_iff :
    entry? spaceShifts (withoutComment line) = some c ↔ Gives spaceShifts line c := by
  rw [entry?_eq_some_iff]
  simp only [withoutComment_eq_iff, Gives]

theorem isStructural_iff : isStructural (withoutComment line) = true ↔ Structural line := by
  have key : isStructural (withoutComment line) = true ↔
      trim (withoutComment line) ∈ [[], "\x7d".toList, "\x7d,".toList, "\x7d;".toList] := by
    simp [isStructural, or_assoc]
  rw [key]
  constructor
  · intro h
    obtain ⟨indent, tail, hi, ht, e⟩ := exists_eq_blank_append_trim (withoutComment line)
    exact ⟨indent, _, tail, withoutComment_eq_iff.mp e, hi, ht, h⟩
  · rintro ⟨indent, core, tail, hc, hi, ht, h⟩
    have hcore : Stops isBlank core ∧ trimEnd core = core := by
      simp only [List.mem_cons, List.not_mem_nil, or_false] at h
      rcases h with rfl | rfl | rfl | rfl
      · exact ⟨stops_nil, rfl⟩
      all_goals exact ⟨stops_cons.mpr (by decide), by decide⟩
    rw [withoutComment_eq_iff.mpr hc, trim_blank_append_blank hi ht hcore.1 hcore.2]
    exact h

/-! ## Reading a line -/

theorem Opens.read (h : Opens line name) : read spaceShifts line = .opener name := by
  rw [Line.read, opened?_eq_some_iff.mpr h]

theorem opened?_eq_none_iff : opened? line = none ↔ ¬ IsOpener line := by
  rw [IsOpener, ← not_iff_not, not_not, ← ne_eq, Option.ne_none_iff_exists']
  simp only [opened?_eq_some_iff]

/-- A line that opens no table is read as an entry if it gives a constant. -/
theorem read_of_not_isOpener (h : ¬ IsOpener line) :
    read spaceShifts line =
      match entry? spaceShifts (withoutComment line) with
      | some c => .entry c
      | none => if isStructural (withoutComment line) then .structural else .unknown := by
  cases he : entry? spaceShifts (withoutComment line) with
  | none => simp [Line.read, opened?_eq_none_iff.mpr h, he]
  | some c => simp [Line.read, opened?_eq_none_iff.mpr h, he]

theorem Gives.read (h : Gives spaceShifts line c) (ho : ¬ IsOpener line) :
    read spaceShifts line = .entry c := by
  rw [read_of_not_isOpener ho, entry?_withoutComment_eq_some_iff.mpr h]

theorem not_isOpener_of_read (h : read spaceShifts line = .structural) : ¬ IsOpener line := by
  rintro ⟨name, hn⟩
  rw [hn.read] at h
  cases h

theorem not_gives_of_read (h : read spaceShifts line = .structural) (c : Constant) :
    ¬ Gives spaceShifts line c := by
  intro hg
  rw [hg.read (not_isOpener_of_read h)] at h
  cases h

theorem read_eq_unknown_iff : read spaceShifts line = .unknown ↔ Unread spaceShifts line := by
  by_cases ho : IsOpener line
  · obtain ⟨name, hn⟩ := ho
    simp only [hn.read, Unread, reduceCtorEq, false_iff, not_and]
    exact fun h ↦ absurd ⟨name, hn⟩ h
  · rw [read_of_not_isOpener ho, Unread, ← isStructural_iff]
    simp only [← entry?_withoutComment_eq_some_iff, ho, not_false_eq_true, true_and]
    cases he : entry? spaceShifts (withoutComment line) with
    | some c => simp
    | none => simp

end Typings.Listing.Line
