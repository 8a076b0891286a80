import Typings.Proofs.Page.Records

/-!
# Pieces of a cell

Constants are looked for in the pieces of a cell, which is cut at the ends of its lines and then at
the commas of depth zero of each line.  `piecesFrom` makes both cuts while it goes along the
characters of the cell, and finds the same constants: blanks at the ends of a piece make no
difference, nor does a piece without characters (`samePieces_linePieces`).  So the constants of a
cell with one opening brace are those of the pieces behind it (`members_append_brace`).
-/

namespace Typings.Page.Initializer

open Text

variable {on : Bool} {depth : Nat} {c : Char} {a b p q s t line : Text} {ps qs ls : List Text}

/-- The constants of pieces, those that give one. -/
def constants (on : Bool) (pieces : List Text) : List Constant :=
  pieces.filterMap fun piece ↦ member? on (trim piece)

/-- Splits a text at the ends of its lines and at the commas of depth zero in each line, given the
depth at its start. -/
def piecesFrom (depth : Nat) : Text → List Text
  | [] => [[]]
  | c :: r =>
    if c == '\n' then [] :: piecesFrom 0 r
    else if c == ',' && depth == 0 then [] :: piecesFrom 0 r
    else consFirst c (piecesFrom (depthAfter depth c) r)

/-- The pieces of lines, given the depth at the start of the first one. -/
def linePieces (depth : Nat) : List Text → List Text
  | [] => [[]]
  | line :: ls => segmentsFrom depth line ++ ls.flatMap segments

/-- The nesting depth behind a text, given the depth in front of it. -/
def depthFrom (depth : Nat) (s : Text) : Nat := s.foldl depthAfter depth

/-- No comma of the text has depth zero, given the depth in front of the text. -/
def NoComma (depth : Nat) (s : Text) : Prop := ∀ a b, s = a ++ ',' :: b → depthFrom depth a ≠ 0

theorem noComma_nil (depth : Nat) : NoComma depth [] := by
  intro a b e
  simp at e

theorem noComma_cons : NoComma depth (c :: s) ↔
    (c = ',' → depth ≠ 0) ∧ NoComma (depthAfter depth c) s := by
  refine ⟨fun h ↦ ⟨?_, fun a b e ↦ h (c :: a) b (by rw [e]; rfl)⟩, fun ⟨hc, hs⟩ a b e ↦ ?_⟩
  · rintro rfl
    exact h [] s rfl
  · cases a with
    | nil => exact hc (List.cons.inj e).1
    | cons d a =>
      obtain ⟨rfl, hs'⟩ := List.cons.inj e
      exact hs a b hs'

instance NoComma.decidable : (depth : Nat) → (s : Text) → Decidable (NoComma depth s)
  | depth, [] => .isTrue (noComma_nil depth)
  | depth, c :: s =>
    have := NoComma.decidable (depthAfter depth c) s
    decidable_of_iff _ noComma_cons.symm

/-! ## Pieces with the same constants -/

theorem constants_append (ps qs : List Text) :
    constants on (ps ++ qs) = constants on ps ++ constants on qs :=
  List.filterMap_append

theorem constants_cons (p : Text) (ps : List Text) :
    constants on (p :: ps) = (member? on (trim p)).toList ++ constants on ps := by
  rw [constants, List.filterMap_cons]
  cases member? on (trim p) <;> rfl

/-- The second pieces have blanks behind the first of them that the first pieces lack, and apart
from this piece they have the same constants. -/
inductive SamePieces (on : Bool) : List Text → List Text → Prop
  | intro {p b : Text} {ps qs : List Text} : isBlankText b = true →
    constants on ps = constants on qs → SamePieces on (p :: ps) ((p ++ b) :: qs)

namespace SamePieces

theorem constants_eq (h : SamePieces on ps qs) : constants on ps = constants on qs := by
  cases h with
  | intro hb h => rw [constants_cons, constants_cons, trim_append_blank hb, h]

theorem exists_cons (h : SamePieces on ps qs) : ∃ q qs', qs = q :: qs' := by
  cases h with
  | intro => exact ⟨_, _, rfl⟩

theorem consFirst (h : SamePieces on ps qs) (c : Char) :
    SamePieces on (Text.consFirst c ps) (Text.consFirst c qs) := by
  cases h with
  | intro hb h => exact .intro hb h

theorem nil_cons (h : constants on ps = constants on qs) : SamePieces on ([] :: ps) ([] :: qs) :=
  .intro (p := []) (b := []) rfl h

end SamePieces

/-! ## Blanks around a line -/

/-- The characters that decide where a line is cut: brackets, which set the depth, and the comma. -/
def marks : List Char := ['(', ')', '[', ']', ',']

theorem depthAfter_of_notMem (hc : c ∉ marks) (depth : Nat) : depthAfter depth c = depth := by
  simp only [marks, List.mem_cons, not_or] at hc
  simp [depthAfter, hc]

theorem notMem_marks_of_isBlank (hc : isBlank c = true) : c ∉ marks := by
  intro hm
  have hall : marks.all (!isBlank ·) = true := rfl
  simpa [hc] using List.all_eq_true.mp hall c hm

theorem segmentsFrom_blank_cons (hc : isBlank c = true) (depth : Nat) (s : Text) :
    segmentsFrom depth (c :: s) = consFirst c (segmentsFrom depth s) := by
  have hmarks := notMem_marks_of_isBlank hc
  have hcomma : ¬ (c == ',' && depth == 0) = true := by
    rw [Bool.and_eq_true, beq_iff_eq]
    rintro ⟨rfl, -⟩
    cases hc
  rw [segmentsFrom, if_neg hcomma, depthAfter_of_notMem hmarks]

theorem segmentsFrom_of_blank (hb : isBlankText b = true) (depth : Nat) :
    segmentsFrom depth b = [b] := by
  induction b with
  | nil => rfl
  | cons c b ih =>
    obtain ⟨hc, hb⟩ := List.forall_mem_cons.mp (isBlankText_iff.mp hb)
    rw [segmentsFrom_blank_cons hc, ih (isBlankText_iff.mpr hb)]
    rfl

theorem samePieces_segmentsFrom (hb : isBlankText b = true) (depth : Nat) (s : Text) :
    SamePieces on (segmentsFrom depth s) (segmentsFrom depth (s ++ b)) := by
  induction s generalizing depth with
  | nil =>
    rw [List.nil_append, segmentsFrom_of_blank hb]
    exact .intro (p := []) hb rfl
  | cons c s ih =>
    rw [List.cons_append, segmentsFrom, segmentsFrom]
    split
    · exact .nil_cons (ih 0).constants_eq
    · exact (ih _).consFirst c

theorem exists_segmentsFrom (depth : Nat) (s : Text) : ∃ p ps, segmentsFrom depth s = p :: ps := by
  cases s with
  | nil => exact ⟨[], [], rfl⟩
  | cons c s =>
    rw [segmentsFrom]
    split
    · exact ⟨_, _, rfl⟩
    · cases segmentsFrom (depthAfter depth c) s with
      | nil => exact ⟨_, _, rfl⟩
      | cons p ps => exact ⟨_, _, rfl⟩

theorem constants_segments_blank_append (hb : isBlankText b = true) (s : Text) :
    constants on (segments (b ++ s)) = constants on (segments s) := by
  induction b with
  | nil => rfl
  | cons c b ih =>
    obtain ⟨hc, hb⟩ := List.forall_mem_cons.mp (isBlankText_iff.mp hb)
    obtain ⟨p, ps, hp⟩ := exists_segmentsFrom 0 (b ++ s)
    have hblank : isBlankText [c] = true := by simpa using hc
    have htrim : trim (c :: p) = trim p := trim_blank_append hblank p
    rw [← ih (isBlankText_iff.mpr hb), segments, segments, List.cons_append,
      segmentsFrom_blank_cons hc, hp, consFirst, constants_cons, constants_cons, htrim]

theorem constants_segments_append_blank (hb : isBlankText b = true) (s : Text) :
    constants on (segments (s ++ b)) = constants on (segments s) :=
  (samePieces_segmentsFrom hb 0 s).constants_eq.symm

theorem constants_segments_trim (s : Text) :
    constants on (segments (trim s)) = constants on (segments s) := by
  obtain ⟨a, b, ha, hb, h⟩ := exists_eq_blank_append_trim s
  conv_rhs => rw [h]
  rw [constants_segments_append_blank hb, constants_segments_blank_append ha]

/-! ## Lines -/

theorem lineMembers_of_notMem (h : '\x7b' ∉ line) :
    lineMembers on line = constants on (segments line) := by
  have htrim : '\x7b' ∉ trim line := fun hm ↦ h (trim_subset line hm)
  have hpart : listPart (trim line) = trim line := by
    rw [listPart, List.dropWhile_eq_nil_iff.mpr (bne_of_notMem htrim)]
  rw [← constants_segments_trim line, constants, ← hpart]
  rfl

/-- What stands in front of the first opening brace of a line gives no constant. -/
theorem lineMembers_append_brace (ha : '\x7b' ∉ a) (s : Text) :
    lineMembers on (a ++ '\x7b' :: s) = constants on (segments s) := by
  have hstart : trimStart (a ++ '\x7b' :: s) = trimStart a ++ '\x7b' :: s := by
    rw [trimStart, List.dropWhile_append]
    split
    · next h =>
      rw [trimStart, List.isEmpty_iff.mp h]
      rfl
    · rfl
  have htrim : trim (a ++ '\x7b' :: s) = trimStart a ++ '\x7b' :: trimEnd s := by
    have e : trimStart a ++ '\x7b' :: s = trimStart a ++ ['\x7b'] ++ s := by simp
    rw [trim, hstart, e, trimEnd_append_of_eq (trimEnd_concat rfl _), List.append_assoc,
      List.singleton_append]
  have hpart : listPart (trimStart a ++ '\x7b' :: trimEnd s) = trimEnd s := by
    have ha' : '\x7b' ∉ trimStart a := fun hm ↦ ha (trimStart_subset a hm)
    rw [listPart, dropWhile_append_of_stops (bne_of_notMem ha') (stops_cons.mpr rfl)]
  obtain ⟨b, hb, hs⟩ := exists_eq_trimEnd_append s
  conv_rhs => rw [hs]
  rw [constants_segments_append_blank hb, lineMembers, htrim, hpart]
  rfl

theorem constants_linePieces_zero (ls : List Text) :
    constants on (linePieces 0 ls) = constants on (ls.flatMap segments) := by
  cases ls <;> rfl

theorem linePieces_consFirst (hc : ¬ (c == ',' && depth == 0) = true) (ls : List Text) :
    linePieces depth (consFirst c ls) = consFirst c (linePieces (depthAfter depth c) ls) := by
  cases ls with
  | nil =>
    have hline : linePieces depth [[c]] = segmentsFrom depth [c] := List.append_nil _
    rw [consFirst, hline, segmentsFrom, if_neg hc]
    rfl
  | cons line ls =>
    obtain ⟨p, ps, hp⟩ := exists_segmentsFrom (depthAfter depth c) line
    rw [consFirst, linePieces, linePieces, segmentsFrom, if_neg hc, hp]
    rfl

theorem linePieces_comma (ls : List Text) :
    linePieces 0 (consFirst ',' ls) = [] :: linePieces 0 ls := by
  cases ls <;> rfl

/-- It makes no difference to the constants whether a cell is cut into lines first. -/
theorem samePieces_linePieces (depth : Nat) (s : Text) :
    SamePieces on (linePieces depth (lines s)) (piecesFrom depth s) := by
  induction s using lines.induct generalizing depth with
  | case1 => exact .nil_cons rfl
  | case2 r ih => exact .nil_cons (constants_linePieces_zero _ ▸ (ih 0).constants_eq)
  | case3 r ih =>
    have hpieces : piecesFrom depth ('\r' :: '\n' :: r) = ([] ++ ['\r']) :: piecesFrom 0 r := rfl
    rw [hpieces]
    exact .intro rfl (constants_linePieces_zero _ ▸ (ih 0).constants_eq)
  | case4 c r hn hr ih =>
    rw [lines.eq_4 c r hn hr, piecesFrom, if_neg (by simpa using hn)]
    split
    · next hc =>
      simp only [Bool.and_eq_true, beq_iff_eq] at hc
      obtain ⟨rfl, rfl⟩ := hc
      rw [linePieces_comma]
      exact .nil_cons (ih 0).constants_eq
    · next hc =>
      rw [linePieces_consFirst hc]
      exact (ih _).consFirst c

theorem members_append_brace (ha : '\x7b' ∉ a) (hn : '\n' ∉ a) (hs : '\x7b' ∉ s) :
    members on (a ++ '\x7b' :: s) = constants on (piecesFrom 0 s) := by
  have hbrace : lines ('\x7b' :: s) = consFirst '\x7b' (lines s) :=
    lines.eq_4 _ _ (by decide) (fun _ h ↦ absurd h (by decide))
  have hrest : ∀ l ∈ lines s, lineMembers on l = constants on (segments l) :=
    fun l hl ↦ lineMembers_of_notMem fun hm ↦ hs (subset_of_mem_lines hl hm)
  rw [← (samePieces_linePieces 0 s).constants_eq]
  cases hl : lines s with
  | nil =>
    rw [hl] at hbrace
    rw [members, lines_append hn (by simp) hbrace, List.flatMap_singleton,
      lineMembers_append_brace ha]
    rfl
  | cons line ls =>
    rw [hl] at hbrace hrest
    rw [members, lines_append hn (by simp) hbrace, List.flatMap_cons, lineMembers_append_brace ha,
      List.flatMap_congr fun l h ↦ hrest l (List.mem_cons_of_mem _ h), linePieces,
      constants_append]
    exact congrArg (constants on (segments line) ++ ·) List.filterMap_flatMap.symm

/-! ## Texts that are not cut -/

theorem piecesFrom_append (hn : '\n' ∉ s) (hc : NoComma depth s)
    (h : piecesFrom (depthFrom depth s) t = p :: ps) :
    piecesFrom depth (s ++ t) = (s ++ p) :: ps := by
  induction s generalizing depth with
  | nil => exact h
  | cons c s ih =>
    rw [List.mem_cons, not_or] at hn
    have hnewline : ¬ (c == '\n') = true := by simpa using fun e ↦ hn.1 e.symm
    rw [noComma_cons] at hc
    have hcomma : ¬ (c == ',' && depth == 0) = true := by
      rw [Bool.and_eq_true, beq_iff_eq, beq_iff_eq]
      exact fun ⟨hcomma, hdepth⟩ ↦ hc.1 hcomma hdepth
    rw [List.cons_append, piecesFrom, if_neg hnewline, if_neg hcomma, ih hn.2 hc.2 h]
    rfl

theorem depthFrom_of_notMem (h : ∀ x ∈ s, x ∉ marks) (depth : Nat) : depthFrom depth s = depth := by
  induction s with
  | nil => rfl
  | cons x s ih =>
    rw [List.forall_mem_cons] at h
    rw [depthFrom, List.foldl_cons, depthAfter_of_notMem h.1]
    exact ih h.2

theorem piecesFrom_append_of_notMem (hn : '\n' ∉ s) (hs : ∀ x ∈ s, x ∉ marks)
    (h : piecesFrom depth t = p :: ps) : piecesFrom depth (s ++ t) = (s ++ p) :: ps := by
  refine piecesFrom_append hn (fun a b e ↦ ?_) (by rwa [depthFrom_of_notMem hs])
  exact absurd (by decide) (hs ',' (by simp [e]))

theorem exists_piecesFrom (depth : Nat) (s : Text) : ∃ p ps, piecesFrom depth s = p :: ps := by
  have h : SamePieces false _ _ := samePieces_linePieces depth s
  exact h.exists_cons

theorem constants_piecesFrom_blank_append (hb : isBlankText b = true) (s : Text) :
    constants on (piecesFrom 0 (b ++ s)) = constants on (piecesFrom 0 s) := by
  induction b with
  | nil => rfl
  | cons x b ih =>
    obtain ⟨hx, hb⟩ := List.forall_mem_cons.mp (isBlankText_iff.mp hb)
    rw [← ih (isBlankText_iff.mpr hb)]
    by_cases hn : x = '\n'
    · rw [hn]
      rfl
    · obtain ⟨p, ps, hp⟩ := exists_piecesFrom 0 (b ++ s)
      have hmarks : ∀ y ∈ [x], y ∉ marks := by simpa using notMem_marks_of_isBlank hx
      have hblank : isBlankText [x] = true := by simpa using hx
      have hcons : piecesFrom 0 (x :: b ++ s) = ([x] ++ p) :: ps :=
        piecesFrom_append_of_notMem (by simpa using Ne.symm hn) hmarks hp
      rw [hcons, hp, constants_cons, constants_cons, trim_blank_append hblank]

end Typings.Page.Initializer
