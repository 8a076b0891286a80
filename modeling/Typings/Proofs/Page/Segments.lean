import Typings.Proofs.Page.Stretches
import Typings.Proofs.Slices

/-!
# The segments of a line

A line is cut at its commas of depth zero and nowhere else, and there is one way to do so
(`segments_eq_iff`).  A line with such a comma is a first segment, the comma, and a line behind it
on which the depth is counted anew (`exists_comma`), so that both halves go segment by segment.
-/

namespace Typings.Page.Initializer

open Text

variable {depth : Nat} {line p s : Text} {ps : List Text}

/-- The pieces are the parts of a line between commas, and these are all its commas of depth zero.
The depth is counted from zero at the start of each piece. -/
structure IsSplit (line : Text) (ps : List Text) : Prop where
  ne_nil : ps ≠ []
  joined : List.intercalate [','] ps = line
  noComma : ∀ p ∈ ps, NoComma 0 p
  closed : ∀ p ∈ ps.dropLast, depthFrom 0 p = 0

instance (line : Text) (ps : List Text) : Decidable (IsSplit line ps) :=
  decidable_of_iff (ps ≠ [] ∧ List.intercalate [','] ps = line ∧ (∀ p ∈ ps, NoComma 0 p) ∧
      ∀ p ∈ ps.dropLast, depthFrom 0 p = 0)
    ⟨fun ⟨hne, hjoined, hcomma, hclosed⟩ ↦ ⟨hne, hjoined, hcomma, hclosed⟩,
      fun h ↦ ⟨h.ne_nil, h.joined, h.noComma, h.closed⟩⟩

/-! ## The first segment -/

theorem segmentsFrom_cons_of_noComma {c : Char} (h : NoComma depth (c :: s)) (t : Text) :
    segmentsFrom depth (c :: t) = consFirst c (segmentsFrom (depthAfter depth c) t) := by
  have hcomma : ¬ (c == ',' && depth == 0) = true := by
    rw [Bool.and_eq_true, beq_iff_eq, beq_iff_eq]
    exact fun ⟨hc, hdepth⟩ ↦ (noComma_cons.mp h).1 hc hdepth
  rw [segmentsFrom, if_neg hcomma]

theorem segmentsFrom_of_noComma (h : NoComma depth s) : segmentsFrom depth s = [s] := by
  induction s generalizing depth with
  | nil => rfl
  | cons c s ih =>
    rw [segmentsFrom_cons_of_noComma h, ih (noComma_cons.mp h).2]
    rfl

theorem segmentsFrom_append_comma (h : NoComma depth p) (h0 : depthFrom depth p = 0) (s : Text) :
    segmentsFrom depth (p ++ ',' :: s) = p :: segments s := by
  induction p generalizing depth with
  | nil =>
    obtain rfl : depth = 0 := h0
    rfl
  | cons c p ih =>
    rw [List.cons_append, segmentsFrom_cons_of_noComma h, ih (noComma_cons.mp h).2 h0]
    rfl

/-- A text that is not one segment has a first comma of depth zero. -/
theorem exists_comma (h : ¬ NoComma depth s) :
    ∃ p r, s = p ++ ',' :: r ∧ NoComma depth p ∧ depthFrom depth p = 0 := by
  induction s generalizing depth with
  | nil => exact absurd (noComma_nil depth) h
  | cons c s ih =>
    by_cases hc : c = ',' ∧ depth = 0
    · obtain ⟨rfl, rfl⟩ := hc
      exact ⟨[], s, rfl, noComma_nil 0, rfl⟩
    · have hc' : c = ',' → depth ≠ 0 := fun hcomma hdepth ↦ hc ⟨hcomma, hdepth⟩
      obtain ⟨p, r, rfl, hp, h0⟩ := ih fun hs ↦ h (noComma_cons.mpr ⟨hc', hs⟩)
      exact ⟨c :: p, r, rfl, noComma_cons.mpr ⟨hc', hp⟩, h0⟩

/-! ## All segments -/

namespace IsSplit

theorem singleton (h : NoComma 0 s) : IsSplit s [s] where
  ne_nil := List.cons_ne_nil _ _
  joined := List.intercalate_singleton
  noComma := by simpa using h
  closed := by simp

theorem cons (h : NoComma 0 p) (h0 : depthFrom 0 p = 0) (hs : IsSplit s ps) :
    IsSplit (p ++ ',' :: s) (p :: ps) where
  ne_nil := List.cons_ne_nil _ _
  joined := by
    obtain ⟨q, qs, rfl⟩ := List.exists_cons_of_ne_nil hs.ne_nil
    rw [List.intercalate_cons_cons, hs.joined, List.append_assoc, List.singleton_append]
  noComma := List.forall_mem_cons.mpr ⟨h, hs.noComma⟩
  closed := by
    rw [List.dropLast_cons_of_ne_nil hs.ne_nil]
    exact List.forall_mem_cons.mpr ⟨h0, hs.closed⟩

/-- Pieces that a line is split into are its segments. -/
theorem segments_eq (h : IsSplit line ps) : segments line = ps := by
  obtain ⟨hne, rfl, hcomma, hclosed⟩ := h
  induction ps with
  | nil => exact absurd rfl hne
  | cons p ps ih =>
    obtain ⟨hp, hps⟩ := List.forall_mem_cons.mp hcomma
    cases ps with
    | nil => rw [List.intercalate_singleton, segments, segmentsFrom_of_noComma hp]
    | cons q ps =>
      rw [List.dropLast_cons_cons] at hclosed
      obtain ⟨h0, hrest⟩ := List.forall_mem_cons.mp hclosed
      rw [List.intercalate_cons_cons, List.append_assoc, List.singleton_append, segments,
        segmentsFrom_append_comma hp h0, ih (List.cons_ne_nil _ _) hps hrest]

end IsSplit

theorem isSplit_segments (line : Text) : IsSplit line (segments line) := by
  induction hn : line.length using Nat.strong_induction_on generalizing line with
  | _ n ih =>
    by_cases h : NoComma 0 line
    · rw [segments, segmentsFrom_of_noComma h]
      exact .singleton h
    · obtain ⟨p, r, rfl, hp, h0⟩ := exists_comma h
      rw [segments, segmentsFrom_append_comma hp h0]
      refine .cons hp h0 (ih _ ?_ r rfl)
      rw [← hn, List.length_append, List.length_cons]
      omega

/-- The segments of a line are the one way to split it at its commas of depth zero, also where they
are cut out of it by byte offsets. -/
theorem segments_eq_iff (line : Text) (ps : List Text) :
    (segments line = ps ↔ IsSplit line ps) ∧
      (segmentsBySlices? line 0 0 0 line = some ps ↔ IsSplit line ps) := by
  have h : segments line = ps ↔ IsSplit line ps := by
    constructor
    · rintro rfl
      exact isSplit_segments line
    · exact IsSplit.segments_eq
  refine ⟨h, ?_⟩
  rw [segmentsBySlices?_zero, Option.some.injEq]
  exact h

/-- A closing bracket too many does not keep the comma behind it, and an opening one does. -/
example : IsSplit "A = f(x, y)), é = [1, 2".toList
    ["A = f(x, y))".toList, " é = [1, 2".toList] := by decide

end Typings.Page.Initializer
