import Typings.Proofs.Declaration.WellFormed
import Typings.Proofs.Text.Pattern

/-!
# The pattern of a constant

A segment gives a constant if it matches the pattern `assignment`.  No choice is left in a match:
the identifier and the blanks in front of the equals sign end where they must, and the value goes up
to the last word behind the equals sign, of which the blanks take as much as they can
(`find?_of_isAssignment`).  So the pattern finds what `member?` reads (`memberByPattern?_eq`), in
one closed form (`member?_closed_form`).
-/

namespace Typings.Page.Initializer

open Text Pattern

variable {on : Bool} {groups : List (Nat × Text)} {before name gap rest s t : Text} {e : Pattern}
  {c : Constant}

/-! ## Descriptions -/

/-- An identifier, `[A-Za-z_][A-Za-z0-9_]*`. -/
def namePattern : Pattern := .group 1 (.seq (.one Identifier.isHead) (.many Identifier.isTail))

/-- A value, `.*\b`. -/
def valuePattern : Pattern := .group 2 (.seq (.many (· != '\n')) .boundary)

/-- An identifier, an equals sign and a value, `^([A-Za-z_][A-Za-z0-9_]*)\s*=\s*(.*\b)`. -/
def assignment : Pattern :=
  .seq .start (.seq namePattern
    (.seq (.many isBlank) (.seq (.one (· == '=')) (.seq (.many isBlank) valuePattern))))

/-- The constant that the pattern finds in a segment. -/
def memberByPattern? (spaceShifts : Bool) (segment : Text) : Option Constant := do
  let groups ← find? assignment segment
  let name ← groups.lookup 1
  let value ← groups.lookup 2
  Constant.mk? name (Shift.spaceIf spaceShifts (trim value))

/-- The segment is an identifier, perhaps a gap of blanks, an equals sign and the rest. -/
structure IsAssignment (segment name gap rest : Text) : Prop where
  eq : segment = name ++ gap ++ '=' :: rest
  identifier : Identifier.check name = true
  blank : isBlankText gap = true

/-! ## The value -/

theorem throughLastWord_ne_nil_iff : throughLastWord s ≠ [] ↔ s.any isWordChar = true := by
  rw [throughLastWord_eq_rdropWhile, Ne, List.rdropWhile_eq_nil_iff, List.any_eq_true]
  simp

theorem any_trimStart (s : Text) : (trimStart s).any isWordChar = s.any isWordChar := by
  have hs : s.takeWhile isBlank ++ trimStart s = s := List.takeWhile_append_dropWhile
  have hblank : (s.takeWhile isBlank).any isWordChar = false := by
    rw [List.any_eq_false]
    intro x hx
    rw [isWordChar_of_isBlank (List.mem_takeWhile_imp hx)]
    exact Bool.false_ne_true
  conv_rhs => rw [← hs, List.any_append, hblank, Bool.false_or]

theorem ends_value_eq_nil (hbefore : ∀ x ∈ before.getLast?, isWordChar x = false)
    (hs : ∀ x ∈ s, isWordChar x = false) : ends valuePattern ⟨before, s, groups⟩ = [] := by
  rw [valuePattern, ends, ends, ends, runs_flatMap_boundary_eq_nil hbefore hs, List.map_nil]

/-- A value ends with the last word. -/
theorem exists_head?_ends_value (hn : '\n' ∉ s) (hs : s.any isWordChar = true) (before : Text)
    (groups : List (Nat × Text)) :
    ∃ p ∈ (ends valuePattern ⟨before, s, groups⟩).head?,
      p.groups = (2, throughLastWord s) :: groups := by
  have hlast := exists_getLast?_throughLastWord (throughLastWord_ne_nil_iff.mpr hs)
  obtain ⟨r, hr, hsplit⟩ := exists_eq_throughLastWord_append s
  generalize throughLastWord s = w at hlast hsplit
  subst hsplit
  have hnewline : ∀ x ∈ w, (x != '\n') = true :=
    bne_of_notMem fun hm ↦ hn (List.mem_append_left r hm)
  refine ⟨⟨before ++ w, r, (2, w) :: groups⟩, ?_, rfl⟩
  rw [valuePattern, ends, ends, ends, List.head?_map,
    head?_runs_flatMap_boundary hnewline hlast hr, Option.map_some, List.drop_left]
  rfl

/-- The blanks in front of a value are as many as there are: with fewer of them its last word would
be the same, and without a word there is no value. -/
theorem head?_ends_blanks_value (hn : '\n' ∉ rest)
    (hbefore : ∀ x ∈ before.getLast?, isWordChar x = false) :
    (ends (.seq (.many isBlank) valuePattern) ⟨before, rest, groups⟩).head?.map Place.groups =
      if rest.any isWordChar then some ((2, throughLastWord (trimStart rest)) :: groups)
      else none := by
  rw [ends, ends]
  split
  · next h =>
    have hn' : '\n' ∉ trimStart rest := fun hm ↦ hn (trimStart_subset rest hm)
    obtain ⟨p, hp, hgroups⟩ := exists_head?_ends_value hn' ((any_trimStart rest).trans h)
      (before ++ rest.takeWhile isBlank) groups
    rw [Option.mem_def.mp (head?_runs_flatMap hp), Option.map_some, hgroups]
  · next h =>
    have hword : ∀ x ∈ rest, isWordChar x = false := by simpa using h
    have hnil : (runs isBlank groups before rest).flatMap (ends valuePattern) = [] := by
      refine List.flatMap_eq_nil_iff.mpr fun p hp ↦ ?_
      obtain ⟨w, r, rfl, rfl⟩ := exists_of_mem_runs hp
      obtain ⟨hw, hr⟩ := List.forall_mem_append.mp hword
      exact ends_value_eq_nil (forall_getLast?_append hbefore hw) hr
    rw [hnil]
    rfl

/-! ## The equals sign -/

/-- Only an equals sign can follow the blanks in front of it. -/
theorem ends_blanks_equals (e : Pattern) (before s : Text) :
    ends (.seq (.many isBlank) (.seq (.one (· == '=')) e)) ⟨before, s, groups⟩ =
      ends (.seq (.one (· == '=')) e) ⟨before ++ s.takeWhile isBlank, trimStart s, groups⟩ := by
  rw [ends, ends]
  refine runs_flatMap (fun a c t hc ↦ ?_) before s
  rw [ends_one_seq_cons, if_neg]
  rintro hequals
  obtain rfl : c = '=' := by simpa using hequals
  cases hc

/-- What an identifier could go on with begins neither blanks nor an equals sign. -/
theorem ends_blanks_equals_of_isTail {c : Char} (hc : Identifier.isTail c = true) (e : Pattern)
    (before t : Text) :
    ends (.seq (.many isBlank) (.seq (.one (· == '=')) e)) ⟨before, c :: t, groups⟩ = [] := by
  have hstops : Stops isBlank (c :: t) := stops_cons.mpr (Identifier.isBlank_of_isTail hc)
  rw [ends_blanks_equals, trimStart_of_stops hstops, ends_one_seq_cons, if_neg]
  intro hequals
  obtain rfl : c = '=' := by simpa using hequals
  cases hc

/-! ## The name -/

/-- A name is as long as it can be, if what follows it cannot start with more of it. -/
theorem ends_name_seq
    (he : ∀ a c t gs, Identifier.isTail c = true → ends e ⟨a, c :: t, gs⟩ = []) (s : Text) :
    ends (.seq namePattern e) ⟨[], s, []⟩ =
      match Identifier.read? s with
      | none => []
      | some (name, behind) => ends e ⟨name, behind, [(1, name)]⟩ := by
  rw [namePattern, ends_group_seq]
  cases s with
  | nil => rw [ends_one_seq_nil, Identifier.read?, List.flatMap_nil]
  | cons c r =>
    rw [ends_one_seq_cons, Identifier.read?]
    split
    · exact runs_flatMap (k := fun q : Place ↦ ends e ⟨q.before, q.rest, (1, q.before) :: q.groups⟩)
        (fun a x t hx ↦ he a x t _ hx) [c] r
    · rw [List.flatMap_nil]

/-! ## Assignments -/

namespace IsAssignment

/-- The identifier is as long as it can be. -/
theorem read?_eq (h : IsAssignment s name gap rest) :
    Identifier.read? s = some (name, gap ++ '=' :: rest) := by
  refine Identifier.read?_eq_some_iff.mpr ⟨by rw [h.eq, List.append_assoc], h.identifier, ?_⟩
  have hblank := isBlankText_iff.mp h.blank
  cases gap with
  | nil => exact stops_cons.mpr (by decide)
  | cons x gap =>
    refine stops_cons.mpr ?_
    rw [← Bool.not_eq_true]
    intro hx
    have := Identifier.isBlank_of_isTail hx
    rw [hblank x List.mem_cons_self] at this
    cases this

theorem trimStart_eq (h : IsAssignment s name gap rest) :
    trimStart (gap ++ '=' :: rest) = '=' :: rest := by
  rw [trimStart_blank_append h.blank, trimStart_of_stops (stops_cons.mpr rfl)]

theorem of_read? (h : Identifier.read? s = some (name, gap)) (htrim : trimStart gap = '=' :: rest) :
    IsAssignment s name (gap.takeWhile isBlank) rest := by
  obtain ⟨rfl, hname, -⟩ := Identifier.read?_eq_some_iff.mp h
  refine ⟨?_, hname, isBlankText_takeWhile gap⟩
  rw [List.append_assoc, ← htrim, trimStart, List.takeWhile_append_dropWhile]

theorem takeWhile_eq (h : IsAssignment s name gap rest) : s.takeWhile Identifier.isTail = name := by
  obtain ⟨hs, hname, hstops⟩ := Identifier.read?_eq_some_iff.mp h.read?_eq
  rw [hs, takeWhile_append_of_stops (Identifier.isTail_of_mem hname) hstops]

end IsAssignment

theorem find?_of_isAssignment (hn : '\n' ∉ s) (h : IsAssignment s name gap rest) :
    find? assignment s =
      if rest.any isWordChar then some [(2, throughLastWord (trimStart rest)), (1, name)]
      else none := by
  have hrest : '\n' ∉ rest := by
    intro hm
    rw [h.eq, List.mem_append, List.mem_cons] at hn
    exact hn (.inr (.inr hm))
  rw [assignment, find?_start_seq,
    ends_name_seq fun a c t gs hc ↦ ends_blanks_equals_of_isTail hc _ a t, h.read?_eq]
  dsimp only
  rw [ends_blanks_equals, h.trimStart_eq, ends_one_seq_cons, if_pos (by rfl)]
  exact head?_ends_blanks_value hrest (by simp; decide)

theorem find?_eq_none (h : ∀ name gap rest, ¬ IsAssignment s name gap rest) :
    find? assignment s = none := by
  rw [assignment, find?_start_seq,
    ends_name_seq fun a c t gs hc ↦ ends_blanks_equals_of_isTail hc _ a t]
  cases hread : Identifier.read? s with
  | none => rfl
  | some parts =>
    obtain ⟨name, behind⟩ := parts
    dsimp only
    rw [ends_blanks_equals]
    cases htrim : trimStart behind with
    | nil => rfl
    | cons c t =>
      have hc : ¬ (c == '=') = true := by
        intro hc
        rw [eq_of_beq hc] at htrim
        exact h _ _ _ (.of_read? hread htrim)
      rw [ends_one_seq_cons, if_neg hc]
      rfl

/-! ## Constants -/

/-- A value from which the blanks in front and what is behind its last word were cut off is right
for a constant, unless nothing is left of it. -/
theorem mk?_throughLastWord (on : Bool) (hname : Identifier.check name = true) (rest : Text) :
    Constant.mk? name (Shift.spaceIf on (throughLastWord (trimStart rest))) =
      if rest.any isWordChar then
        some ⟨name, Shift.spaceIf on (throughLastWord (trimStart rest))⟩
      else none := by
  split
  · next h =>
    have hne := throughLastWord_ne_nil_iff.mpr ((any_trimStart rest).trans h)
    have hcut := (isCutOut_throughLastWord hne).spaceIf on
    exact Listing.Line.mk?_eq_some_iff.mpr ⟨hname, hcut.isBlankText_eq, rfl⟩
  · next h =>
    have hnil : throughLastWord (trimStart rest) = [] := by
      by_contra hne
      exact h ((any_trimStart rest).symm.trans (throughLastWord_ne_nil_iff.mp hne))
    have hblank := Listing.Line.isBlankText_spaceIf on []
    rw [hnil, Constant.mk?, hblank]
    simp

theorem member?_of_isAssignment (on : Bool) (h : IsAssignment s name gap rest) :
    member? on s =
      if rest.any isWordChar then
        some ⟨name, Shift.spaceIf on (throughLastWord (trimStart rest))⟩
      else none := by
  rw [member?, h.read?_eq]
  dsimp only
  rw [h.trimStart_eq]
  exact mk?_throughLastWord on h.identifier rest

theorem member?_eq_none_of_not_isAssignment (on : Bool)
    (h : ∀ name gap rest, ¬ IsAssignment s name gap rest) : member? on s = none := by
  rw [member?]
  split
  · rfl
  · next name behind hread =>
    split
    · next rest htrim => exact absurd (.of_read? hread htrim) (h _ _ _)
    · rfl

theorem memberByPattern?_of_find? (on : Bool) (hname : Identifier.check name = true)
    (h : find? assignment s = some [(2, throughLastWord (trimStart rest)), (1, name)])
    (hword : rest.any isWordChar = true) :
    memberByPattern? on s =
      some ⟨name, Shift.spaceIf on (throughLastWord (trimStart rest))⟩ := by
  have hne := throughLastWord_ne_nil_iff.mpr ((any_trimStart rest).trans hword)
  have hcut := isCutOut_throughLastWord hne
  have hstops : Stops isBlank (throughLastWord (trimStart rest)) := by
    simpa using hcut.stops_append []
  have htrim : trim (throughLastWord (trimStart rest)) = throughLastWord (trimStart rest) := by
    rw [trim, trimStart_of_stops hstops, hcut.trimEnd_eq]
  have hmk := mk?_throughLastWord on hname rest
  rw [if_pos hword] at hmk
  rw [memberByPattern?, h, ← hmk]
  exact congrArg (fun v ↦ Constant.mk? name (Shift.spaceIf on v)) htrim

/-- What is read from a segment is what the pattern finds in it. -/
theorem memberByPattern?_eq (on : Bool) (hn : '\n' ∉ s) : memberByPattern? on s = member? on s := by
  by_cases h : ∃ name gap rest, IsAssignment s name gap rest
  · obtain ⟨name, gap, rest, h⟩ := h
    have hfind := find?_of_isAssignment hn h
    rw [member?_of_isAssignment on h]
    split
    · next hword =>
      rw [if_pos hword] at hfind
      exact memberByPattern?_of_find? on h.identifier hfind hword
    · next hword =>
      rw [if_neg hword] at hfind
      rw [memberByPattern?, hfind]
      rfl
  · push Not at h
    rw [member?_eq_none_of_not_isAssignment on h, memberByPattern?, find?_eq_none h]
    rfl

/-- Whatever the pattern matches gives a constant. -/
theorem isSome_memberByPattern? (on : Bool) (hn : '\n' ∉ s) :
    (memberByPattern? on s).isSome = (find? assignment s).isSome := by
  rw [memberByPattern?_eq on hn]
  by_cases h : ∃ name gap rest, IsAssignment s name gap rest
  · obtain ⟨name, gap, rest, h⟩ := h
    rw [member?_of_isAssignment on h, find?_of_isAssignment hn h]
    split <;> rfl
  · push Not at h
    rw [member?_eq_none_of_not_isAssignment on h, find?_eq_none h]
    rfl

theorem exists_isAssignment_of_member? (h : member? on s = some c) :
    ∃ name gap rest, IsAssignment s name gap rest ∧ ∃ x ∈ rest, isWordChar x = true := by
  by_cases hs : ∃ name gap rest, IsAssignment s name gap rest
  · obtain ⟨name, gap, rest, hs⟩ := hs
    rw [member?_of_isAssignment on hs] at h
    split at h
    · next hword => exact ⟨name, gap, rest, hs, List.any_eq_true.mp hword⟩
    · cases h
  · push Not at hs
    rw [member?_eq_none_of_not_isAssignment on hs] at h
    cases h

/-- A segment gives a constant exactly if it is an identifier, perhaps blanks, an equals sign and a
rest with a word. The name is that identifier, which ends where none could go on; the value, before
shifts are spaced, is the rest without the blanks in front, up to its last word. Nothing that the
pattern matches is wrong for a constant. -/
theorem member?_closed_form (on : Bool) (hn : '\n' ∉ s) :
    member? on s = memberByPattern? on s ∧
      ((∃ c, memberByPattern? on s = some c) ↔
        ∃ name gap rest, IsAssignment s name gap rest ∧ ∃ x ∈ rest, isWordChar x = true) ∧
      (∀ name gap rest, IsAssignment s name gap rest → (∃ x ∈ rest, isWordChar x = true) →
        name = s.takeWhile Identifier.isTail ∧ memberByPattern? on s =
          some ⟨name, Shift.spaceIf on (throughLastWord (trimStart rest))⟩) ∧
      (memberByPattern? on s).isSome = (find? assignment s).isSome := by
  have hvalue : ∀ name gap rest, IsAssignment s name gap rest →
      (∃ x ∈ rest, isWordChar x = true) → memberByPattern? on s =
        some ⟨name, Shift.spaceIf on (throughLastWord (trimStart rest))⟩ := by
    intro name gap rest h hword
    rw [memberByPattern?_eq on hn, member?_of_isAssignment on h,
      if_pos (List.any_eq_true.mpr hword)]
  refine ⟨(memberByPattern?_eq on hn).symm, ⟨?_, ?_⟩, ?_, isSome_memberByPattern? on hn⟩
  · rintro ⟨c, hc⟩
    exact exists_isAssignment_of_member? ((memberByPattern?_eq on hn).symm.trans hc)
  · rintro ⟨name, gap, rest, h, hword⟩
    exact ⟨_, hvalue name gap rest h hword⟩
  · intro name gap rest h hword
    exact ⟨h.takeWhile_eq.symm, hvalue name gap rest h hword⟩

/-- Blanks of several kinds, a value that ends in brackets, and a word outside ASCII. -/
theorem member?_closed_form_brackets :
    let s := "Zero1\t=  Vector(0, [ß]) \x7d".toList
    let rest := "  Vector(0, [ß]) \x7d".toList
    '\n' ∉ s ∧ IsAssignment s "Zero1".toList "\t".toList rest ∧
      (∃ x ∈ rest, isWordChar x = true) ∧ memberByPattern? true s =
        some ⟨"Zero1".toList, Shift.spaceIf true (throughLastWord (trimStart rest))⟩ := by
  intro s rest
  have hn : '\n' ∉ s := by decide
  have h : IsAssignment s "Zero1".toList "\t".toList rest := ⟨by decide, by decide, by decide⟩
  have hword : ∃ x ∈ rest, isWordChar x = true := ⟨'V', by decide, by decide⟩
  exact ⟨hn, h, hword, ((member?_closed_form true hn).2.2.1 _ _ _ h hword).2⟩

/-- The constants of a cell are those that the pattern finds, segment by segment. -/
theorem members_eq_byPattern (on : Bool) (cell : Text) :
    members on cell = (lines cell).flatMap fun line ↦
      (segments (listPart (trim line))).filterMap fun segment ↦
        memberByPattern? on (trim segment) := by
  rw [members]
  refine List.flatMap_congr fun line hline ↦ List.filterMap_congr fun segment hsegment ↦ ?_
  exact (memberByPattern?_eq on (newline_notMem_of_mem_segments hline hsegment)).symm

end Typings.Page.Initializer
