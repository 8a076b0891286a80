import Typings.Proofs.Listing.Tables
import Typings.Proofs.Text.Line

/-!
# The records of a listing

Whatever the source, the records read from it have the names and values that the next reading of
them relies on: `isTable_of_mem_records` is the invariant, and `spaceIf_value` says that spacing has
nothing left to do on them.
-/

namespace Typings

open Text

/-- A value as it stands in a line of a listing: it is not blank, ends in no blank, stays on its
line and holds no comment. -/
structure Listing.IsValue (v : Text) : Prop where
  not_blank : isBlankText v = false
  no_newline : '\n' ∉ v
  no_comment : ¬ Listing.Line.HasComment v
  trimmed : trimEnd v = v

/-- A declaration that can be written as a table of a listing. -/
structure Listing.IsTable (d : Declaration) : Prop where
  kind : d.kind = Declaration.enumKind
  name : Identifier.check d.name = true
  names : ∀ c ∈ d.members, Identifier.check c.name = true
  values : ∀ c ∈ d.members, Listing.IsValue c.value

namespace Listing

open Line (Gives HasComment hasComment_cons hasComment_append_cons)

variable {spaceShifts : Bool} {line v : Text} {c : Constant} {d : Declaration} {o : Options}
variable {source : Text}

instance (v : Text) : Decidable (IsValue v) :=
  decidable_of_iff (isBlankText v = false ∧ '\n' ∉ v ∧ ¬ HasComment v ∧ trimEnd v = v)
    ⟨fun ⟨h₁, h₂, h₃, h₄⟩ ↦ ⟨h₁, h₂, h₃, h₄⟩, fun ⟨h₁, h₂, h₃, h₄⟩ ↦ ⟨h₁, h₂, h₃, h₄⟩⟩

instance (d : Declaration) : Decidable (IsTable d) :=
  decidable_of_iff (d.kind = Declaration.enumKind ∧ Identifier.check d.name = true ∧
      (∀ c ∈ d.members, Identifier.check c.name = true) ∧ ∀ c ∈ d.members, IsValue c.value)
    ⟨fun ⟨h₁, h₂, h₃, h₄⟩ ↦ ⟨h₁, h₂, h₃, h₄⟩, fun ⟨h₁, h₂, h₃, h₄⟩ ↦ ⟨h₁, h₂, h₃, h₄⟩⟩

/-- Spacing keeps values values. -/
theorem IsValue.spaceIf (h : IsValue v) (on : Bool) : IsValue (Shift.spaceIf on v) := by
  cases on with
  | false => exact h
  | true =>
    refine ⟨?_, fun hn ↦ ?_, fun hc ↦ h.no_comment ?_, ?_⟩
    · exact (Shift.isBlankText_space v).trans h.not_blank
    · rcases Shift.mem_space hn with hn | hn
      · exact h.no_newline hn
      · cases hn
    · change HasComment (Shift.space v) at hc
      rcases Shift.space_cases v with e | ⟨left, right, hl, e⟩
      · rwa [← e]
      · have hv : v = left ++ '<' :: '<' :: right := by simp [hl.eq]
        have hs : Shift.space v = left ++ ' ' :: '<' :: '<' :: ' ' :: right := by simp [e]
        rw [hs, hasComment_append_cons (by decide), hasComment_cons (by decide),
          hasComment_cons (by decide), hasComment_cons (by decide)] at hc
        rwa [hv, hasComment_append_cons (by decide), hasComment_cons (by decide)]
    · change trimEnd (Shift.space v) = Shift.space v
      rw [trimEnd_eq_self_iff, Shift.getLast?_space]
      exact trimEnd_eq_self_iff.mp h.trimmed

theorem spaceIf_spaceIf (on : Bool) (v : Text) :
    Shift.spaceIf on (Shift.spaceIf on v) = Shift.spaceIf on v := by
  cases on with
  | false => rfl
  | true => exact Shift.space_space v

/-! ## Lines and tables -/

/-- The value on a line is a value, and is spaced if values are to be. -/
theorem Line.Gives.isValue (h : Gives spaceShifts line c) (hn : '\n' ∉ line) :
    IsValue c.value ∧ Shift.spaceIf spaceShifts c.value = c.value := by
  obtain ⟨indent, written, value, hcode, -, -, ⟨gap, comma, tail, rfl, -, -, hv, -⟩, hb, e⟩ := h
  have hpart : value <:+: indent ++ c.name ++ " = ".toList ++ (value ++ gap ++ comma ++ tail) :=
    ⟨indent ++ c.name ++ " = ".toList, gap ++ comma ++ tail, by simp⟩
  have hvalue : IsValue value := by
    refine ⟨hb, fun hm ↦ hn ?_, fun hc ↦ hcode.not_hasComment (hc.trans hpart), hv⟩
    obtain ⟨rest, hl, -⟩ := hcode
    rw [hl]
    exact List.mem_append_left _ (hpart.subset hm)
  rw [e, spaceIf_spaceIf]
  exact ⟨hvalue.spaceIf spaceShifts, rfl⟩

theorem exists_gives_of_mem_constants {body : List Text} (h : c ∈ constants spaceShifts body) :
    ∃ line ∈ body, Gives spaceShifts line c := by
  obtain ⟨line, hl, hc⟩ := List.mem_filterMap.mp h
  exact ⟨line, hl, Line.entry?_withoutComment_eq_some_iff.mp hc⟩

/-- Each record comes from a table of the source. -/
theorem exists_table_of_mem_records (h : d ∈ (parse o source).records) :
    ∃ t : Table, t.Declares o.spaceShifts d ∧ ∀ line ∈ t.lines, line ∈ lines source := by
  obtain ⟨preamble, tables, ds, hs, hp, ht⟩ := exists_tables o.spaceShifts (lines source)
  rw [parse_of_tables hs hp ht] at h
  obtain ⟨t, hmem, hd⟩ := exists_table_of_mem ht h
  refine ⟨t, hd, fun line hl ↦ ?_⟩
  rw [hs]
  exact List.mem_append_right _ (List.mem_flatMap.mpr ⟨t, hmem, hl⟩)

theorem exists_gives_of_mem_members (h : d ∈ (parse o source).records) (hc : c ∈ d.members) :
    ∃ line ∈ lines source, Gives o.spaceShifts line c := by
  obtain ⟨t, ht, hl⟩ := exists_table_of_mem_records h
  rw [collects_iff.mp ht.members] at hc
  obtain ⟨line, hmem, hg⟩ := exists_gives_of_mem_constants hc
  exact ⟨line, hl line (List.mem_cons_of_mem _ hmem), hg⟩

/-- Every record that reading a listing gives can be written as a table. -/
theorem isTable_of_mem_records (h : d ∈ (parse o source).records) : IsTable d := by
  obtain ⟨t, ht, -⟩ := exists_table_of_mem_records h
  refine ⟨ht.kind, ?_, fun c hc ↦ ?_, fun c hc ↦ ?_⟩
  · obtain ⟨-, -, -, -, hn, -⟩ := ht.name
    exact hn
  · obtain ⟨line, -, -, -, -, -, -, hn, -⟩ := exists_gives_of_mem_members h hc
    exact hn
  · obtain ⟨line, hl, hg⟩ := exists_gives_of_mem_members h hc
    exact (hg.isValue (newline_notMem_of_mem_lines hl)).1

theorem spaceIf_value (h : d ∈ (parse o source).records) (hc : c ∈ d.members) :
    Shift.spaceIf o.spaceShifts c.value = c.value := by
  obtain ⟨line, hl, hg⟩ := exists_gives_of_mem_members h hc
  exact (hg.isValue (newline_notMem_of_mem_lines hl)).2

end Listing

end Typings
