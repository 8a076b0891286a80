import Typings.Page
import Typings.Proofs.Listing.Line
import Typings.Proofs.Text.Line

/-!
# The records of a page

Whatever the markup, a record of a page was made from the texts of two cells (`exists_declaration`),
so that its kind and name are words and its constants have identifiers for names and values that
stay on their line (`isPlain_declaration`).
-/

namespace Typings

open Text

/-- A declaration can be told from the lines of its block: its kind and name hold no blank, and a
line feed does not occur in its constants. -/
structure Declaration.IsPlain (d : Declaration) : Prop where
  kind : ∀ c ∈ d.kind, isBlank c = false
  name : ∀ c ∈ d.name, isBlank c = false
  names : ∀ c ∈ d.members, Identifier.check c.name = true
  values : ∀ c ∈ d.members, '\n' ∉ c.value

namespace Page

variable {o : Options} {spaceShifts : Bool} {c : Constant} {d : Declaration} {s t line cell : Text}

/-! ## Parts of a cell -/

namespace Initializer

theorem subset_of_mem_segmentsFrom {depth : Nat} (h : t ∈ segmentsFrom depth s) : t ⊆ s := by
  induction s generalizing depth t with
  | nil =>
    rw [List.mem_singleton.mp h]
    exact List.nil_subset _
  | cons c s ih =>
    rw [segmentsFrom] at h
    split at h
    · rcases List.mem_cons.mp h with rfl | h
      · exact List.nil_subset _
      · exact List.Subset.trans (ih h) (List.subset_cons_self c s)
    · rcases mem_consFirst h with h | ⟨t, rfl, rfl | h⟩
      · exact List.Subset.trans (ih h) (List.subset_cons_self c s)
      · simp
      · exact List.cons_subset_cons c (ih h)

theorem listPart_subset (line : Text) : listPart line ⊆ line := by
  rw [listPart]
  split
  · exact List.Subset.refl line
  · next c rest h =>
    have hdrop : c :: rest ⊆ line := h ▸ (List.dropWhile_sublist _).subset
    exact List.Subset.trans (List.subset_cons_self c rest) hdrop

theorem trimStart_subset (s : Text) : trimStart s ⊆ s := (List.dropWhile_sublist _).subset

theorem reverse_dropWhile_subset (p : Char → Bool) (s : Text) :
    (s.reverse.dropWhile p).reverse ⊆ s := by
  intro c hc
  have := (List.dropWhile_sublist p).subset (List.mem_reverse.mp hc)
  exact List.mem_reverse.mp this

theorem trim_subset (s : Text) : trim s ⊆ s :=
  List.Subset.trans (reverse_dropWhile_subset isBlank (trimStart s)) (trimStart_subset s)

/-- A constant is named by an identifier, and its value has no character that is neither a space nor
one of the segment. -/
theorem member?_eq_some (h : member? spaceShifts s = some c) :
    Identifier.check c.name = true ∧ ∀ x ∈ c.value, x ∈ s ∨ x = ' ' := by
  unfold member? at h
  split at h
  · cases h
  · next name rest hread =>
    obtain ⟨rfl, -, -⟩ := Identifier.read?_eq_some_iff.mp hread
    split at h
    · next value hvalue =>
      obtain ⟨hname, -, rfl⟩ := Listing.Line.mk?_eq_some_iff.mp h
      refine ⟨hname, fun x hx ↦ ?_⟩
      have hspace : x ∈ throughLastWord (trimStart value) ∨ x = ' ' := by
        cases spaceShifts with
        | false => exact .inl hx
        | true => exact Shift.mem_space hx
      refine hspace.imp_left fun hx ↦ List.mem_append_right _ (trimStart_subset rest ?_)
      rw [hvalue]
      exact List.mem_cons_of_mem _ (trimStart_subset value (reverse_dropWhile_subset _ _ hx))
    · cases h

/-- Whatever is looked at for a constant lies on one line of the cell. -/
theorem newline_notMem_of_mem_segments (hline : line ∈ lines cell)
    (h : s ∈ segments (listPart (trim line))) : '\n' ∉ trim s := by
  intro hn
  have hpart := subset_of_mem_segmentsFrom h (trim_subset s hn)
  exact newline_notMem_of_mem_lines hline (trim_subset line (listPart_subset _ hpart))

theorem exists_member?_of_mem_members (h : c ∈ members spaceShifts cell) :
    ∃ segment, '\n' ∉ segment ∧ member? spaceShifts segment = some c := by
  obtain ⟨line, hline, h⟩ := List.mem_flatMap.mp h
  obtain ⟨segment, hsegment, h⟩ := List.mem_filterMap.mp h
  exact ⟨trim segment, newline_notMem_of_mem_segments hline hsegment, h⟩

theorem mem_members (h : c ∈ members spaceShifts cell) :
    Identifier.check c.name = true ∧ '\n' ∉ c.value := by
  obtain ⟨segment, hsegment, h⟩ := exists_member?_of_mem_members h
  obtain ⟨hname, hvalue⟩ := member?_eq_some h
  refine ⟨hname, fun hn ↦ ?_⟩
  rcases hvalue _ hn with hn | hn
  · exact hsegment hn
  · cases hn

theorem isBlank_of_mem_firstWord {x : Char} (h : x ∈ firstWord s) : isBlank x = false := by
  simpa using List.mem_takeWhile_imp h

theorem isPlain_declaration (spaceShifts : Bool) (left right : Text) :
    (declaration spaceShifts left right).IsPlain where
  kind _ := isBlank_of_mem_firstWord
  name _ := isBlank_of_mem_firstWord
  names _ h := (mem_members h).1
  values _ h := (mem_members h).2

end Initializer

/-! ## Records -/

namespace Row.Scan

variable {scan : Scan} {e : Markup.Event} {es : List Markup.Event}

/-- An event that gives a declaration closes a row, and the declaration is made from its cells. -/
theorem step_eq_some (h : (scan.step o e).2 = some d) :
    d = Initializer.declaration o.spaceShifts scan.left scan.right := by
  rw [step] at h
  split at h
  · cases h
  · split at h
    · cases h
    · split at h
      · exact (Option.some.inj h).symm
      · split at h
        · cases h
        · split at h
          · cases h
          · split at h <;> cases h

theorem exists_declaration (h : d ∈ (scan.run o es).1) :
    ∃ left right, d = Initializer.declaration o.spaceShifts left right := by
  induction es generalizing scan with
  | nil => cases h
  | cons e es ih =>
    rcases List.mem_append.mp h with h | h
    · exact ⟨_, _, step_eq_some (Option.mem_toList.mp h)⟩
    · exact ih h

end Row.Scan

theorem isPlain_of_mem_records {markup : Text} (h : d ∈ (parse o markup).records) : d.IsPlain := by
  obtain ⟨left, right, rfl⟩ := Row.Scan.exists_declaration h
  exact Initializer.isPlain_declaration _ _ _

end Page

end Typings
