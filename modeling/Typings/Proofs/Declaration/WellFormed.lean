import Typings.Proofs.Listing.Records
import Typings.Proofs.Page.Records
import Typings.Proofs.Text.Word

/-!
# The form of what is read

Names and values may come from any text, but those that are read have a form to rely on.  For tables
of a listing it is `Listing.IsTable`; for member rows it is `Page.IsRow`, which says where values start
and end besides what the lines of a block need (`Page.Initializer.isRow_declaration`).
-/

namespace Typings

open Text

/-- A value as it is cut out of a cell: no blank is left where it starts, and it ends in a word. -/
structure Page.IsCutOut (v : Text) : Prop where
  head : ∃ x ∈ v.head?, isBlank x = false
  last : ∃ x ∈ v.getLast?, isWordChar x = true

/-- A declaration as member rows make it. Its kind and its name may be empty. -/
structure Page.IsRow (d : Declaration) : Prop extends d.IsPlain where
  values_cutOut : ∀ c ∈ d.members, Page.IsCutOut c.value

variable {s v : Text} {c : Constant} {on : Bool}

namespace Text

theorem exists_head?_trimStart (h : trimStart s ≠ []) :
    ∃ x ∈ (trimStart s).head?, isBlank x = false := by
  obtain ⟨x, r, hs⟩ := List.exists_cons_of_ne_nil h
  have hstops := stops_dropWhile isBlank s
  rw [← trimStart, hs, stops_cons] at hstops
  exact ⟨x, by rw [hs]; rfl, hstops⟩

end Text

namespace Page

namespace IsCutOut

instance (v : Text) : Decidable (IsCutOut v) :=
  decidable_of_iff (v.head?.any (!isBlank ·) = true ∧ v.getLast?.any isWordChar = true) <| by
    simp only [Option.any_eq_true, Bool.not_eq_true']
    exact ⟨fun ⟨hhead, hlast⟩ ↦ ⟨hhead, hlast⟩, fun ⟨hhead, hlast⟩ ↦ ⟨hhead, hlast⟩⟩

theorem ne_nil (h : IsCutOut v) : v ≠ [] := by
  rintro rfl
  obtain ⟨x, hx, -⟩ := h.head
  cases hx

theorem stops_append (h : IsCutOut v) (s : Text) : Stops isBlank (v ++ s) := by
  obtain ⟨x, hx, hblank⟩ := h.head
  obtain ⟨r, rfl⟩ := List.head?_eq_some_iff.mp hx
  exact stops_cons.mpr hblank

theorem isBlank_getLast? (h : IsCutOut v) : ∀ x ∈ v.getLast?, isBlank x = false := by
  obtain ⟨y, hy, hword⟩ := h.last
  intro x hx
  rw [Option.mem_unique hx hy]
  exact isBlank_of_isWordChar hword

theorem trimEnd_eq (h : IsCutOut v) : trimEnd v = v := trimEnd_eq_self_iff.mpr h.isBlank_getLast?

theorem isBlankText_eq (h : IsCutOut v) : isBlankText v = false := by
  obtain ⟨x, hx, hblank⟩ := h.head
  rw [← Bool.not_eq_true, isBlankText_iff]
  intro hall
  rw [hall x (List.mem_of_head? hx)] at hblank
  cases hblank

end IsCutOut

/-- Spacing changes neither end of a value. -/
theorem IsCutOut.spaceIf (h : IsCutOut v) (on : Bool) : IsCutOut (Shift.spaceIf on v) := by
  cases on with
  | false => exact h
  | true =>
    rw [Shift.spaceIf, if_pos rfl]
    exact ⟨by rw [Shift.head?_space]; exact h.head, by rw [Shift.getLast?_space]; exact h.last⟩

namespace Initializer

theorem isCutOut_throughLastWord (h : throughLastWord (trimStart s) ≠ []) :
    IsCutOut (throughLastWord (trimStart s)) := by
  have hs : trimStart s ≠ [] := by
    intro hs
    rw [hs] at h
    exact h rfl
  refine ⟨?_, exists_getLast?_throughLastWord h⟩
  rw [head?_throughLastWord h]
  exact exists_head?_trimStart hs

theorem isCutOut_of_member? (h : member? on s = some c) : IsCutOut c.value := by
  unfold member? at h
  split at h
  · cases h
  · split at h
    · next value _ =>
      obtain ⟨-, hblank, rfl⟩ := Listing.Line.mk?_eq_some_iff.mp h
      rw [Listing.Line.isBlankText_spaceIf] at hblank
      have hne : throughLastWord (trimStart value) ≠ [] := by
        intro he
        rw [he] at hblank
        cases hblank
      exact (isCutOut_throughLastWord hne).spaceIf on
    · cases h

theorem isRow_declaration (on : Bool) (left right : Text) : IsRow (declaration on left right) where
  toIsPlain := isPlain_declaration on left right
  values_cutOut c hc := by
    obtain ⟨segment, -, hsegment⟩ := exists_member?_of_mem_members hc
    exact isCutOut_of_member? hsegment

end Initializer

end Page

/-- All that is read from a listing has the form of its tables, and all that a scan gives, whatever
it holds to begin with, has the form of member rows. -/
theorem wellFormed_of_read :
    (∀ (o : Listing.Options) (source : Text), ∀ d ∈ (Listing.parse o source).records,
      Listing.IsTable d) ∧
    ∀ (o : Page.Options) (s : Page.Row.Scan) (es : List Markup.Event), ∀ d ∈ (s.run o es).1,
      Page.IsRow d := by
  constructor
  · intro o source d hd
    exact Listing.isTable_of_mem_records hd
  · intro o s es d hd
    obtain ⟨left, right, rfl⟩ := Page.Row.Scan.exists_declaration hd
    exact Page.Initializer.isRow_declaration o.spaceShifts left right

/-- Neither a comment nor the bracket behind a value comes with it. -/
theorem wellFormed_of_read_flags :
    let source := "Flags = \x7b\n  A = 1<<2 , -- first\n\x7d".toList
    let table : Declaration :=
      ⟨Declaration.enumKind, "Flags".toList, [⟨"A".toList, "1 << 2".toList⟩]⟩
    let scan : Page.Row.Scan :=
      ⟨.inside none, "enum".toList, "Flags \x7b A = (1 | 2) \x7d".toList, 1⟩
    let row : Declaration := ⟨"enum".toList, "Flags".toList, [⟨"A".toList, "(1 | 2".toList⟩]⟩
    (table ∈ (Listing.parse {} source).records ∧ Listing.IsTable table) ∧
      row ∈ (scan.run {} [.endTag "tr".toList]).1 ∧ Page.IsRow row := by
  intro source table scan row
  have htable : table ∈ (Listing.parse {} source).records := by decide
  have hrow : row ∈ (scan.run {} [.endTag "tr".toList]).1 := by decide
  exact ⟨⟨htable, wellFormed_of_read.1 {} source table htable⟩,
    hrow, wellFormed_of_read.2 {} scan _ row hrow⟩

end Typings
