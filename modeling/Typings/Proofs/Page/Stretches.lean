import Mathlib.Data.List.Forall2
import Typings.Proofs.Page.Pieces
import Typings.Proofs.Text.Stretch
import Typings.Proofs.Text.Word

/-!
# Where the constants of a cell stand

With its value as it is written, each constant of a cell stands somewhere on a line of the cell, and
these places follow each other as the constants do (`Lists`).  That is shown piece by piece
(`exists_lists_pieces`), line by line (`exists_lists_line`) and then for all lines
(`exists_lists_members`).
-/

namespace Typings.Page.Initializer

open Text

variable {s s' t a a' b b' : Text} {c : Constant} {cs ds : List Constant}

/-! ## Descriptions -/

/-- The text is the constant as it is written: its name, an equals sign and its value, perhaps with
blanks at either side of the equals sign. -/
def Assigns (t : Text) (c : Constant) : Prop :=
  ∃ gap gap', isBlankText gap = true ∧ isBlankText gap' = true ∧
    t = c.name ++ gap ++ "=".toList ++ gap' ++ c.value

/-- The stretches give the constants, one after the other. -/
structure Lists (xs : List (Stretch s)) (cs : List Constant) : Prop where
  assigns : List.Forall₂ (fun x c ↦ Assigns x.text c) xs cs
  ordered : xs.Pairwise Stretch.Precedes

/-- The second stretch starts behind the first opening brace of the first one, if that has one. -/
def IsBehindBrace (line x : Stretch s) : Prop :=
  '\x7b' ∈ line.text → line.before ++ line.text.takeWhile (· != '\x7b') ++ ['\x7b'] <+: x.before

/-- The stretch lies within a line, behind the first opening brace of that line if it has one. -/
def IsPlaced (x : Stretch s) : Prop :=
  ∃ line : Stretch s, line.IsLine ∧ x.LiesIn line ∧ IsBehindBrace line x

/-! ## Stretches of a part -/

theorem IsBehindBrace.within {line x : Stretch s} (h : IsBehindBrace line x)
    (e : s' = a ++ s ++ b) : IsBehindBrace (line.within e) (x.within e) := by
  intro hm
  rw [Stretch.before_within, Stretch.before_within, Stretch.text_within, List.append_assoc,
    List.append_assoc]
  exact (List.prefix_append_right_inj a).mpr (by simpa using h hm)

namespace Lists

theorem nil (s : Text) : Lists ([] : List (Stretch s)) [] := ⟨.nil, .nil⟩

theorem singleton {x : Stretch s} (h : Assigns x.text c) : Lists [x] [c] :=
  ⟨.cons h .nil, List.pairwise_singleton _ _⟩

theorem within {xs : List (Stretch s)} (h : Lists xs cs) (e : s' = a ++ s ++ b) :
    Lists (xs.map (·.within e)) cs where
  assigns := List.forall₂_map_left_iff.mpr h.assigns
  ordered := List.pairwise_map.mpr (h.ordered.imp fun hxy ↦ hxy.within e)

/-- Of two parts of a text, the stretches of the one behind come behind. -/
theorem append {xs : List (Stretch s)} {ys : List (Stretch t)} (hx : Lists xs cs)
    (hy : Lists ys ds) (e : s' = a ++ s ++ b) (e' : s' = a' ++ t ++ b') (h : a ++ s <+: a') :
    Lists (xs.map (·.within e) ++ ys.map (·.within e')) (cs ++ ds) where
  assigns := List.rel_append (hx.within e).assigns (hy.within e').assigns
  ordered := by
    refine List.pairwise_append.mpr ⟨(hx.within e).ordered, (hy.within e').ordered, ?_⟩
    simp only [List.mem_map]
    rintro _ ⟨x, -, rfl⟩ _ ⟨y, -, rfl⟩
    exact x.precedes_within y e e' h

end Lists

/-! ## Pieces -/

/-- A piece that gives a constant is this constant, and what is left behind its last word. -/
theorem exists_of_member? (h : member? false s = some c) :
    ∃ t rest, Assigns t c ∧ s = t ++ rest := by
  unfold member? at h
  split at h
  · cases h
  · next name behindName hread =>
    obtain ⟨rfl, -, -⟩ := Identifier.read?_eq_some_iff.mp hread
    split at h
    · next value hvalue =>
      obtain ⟨-, -, rfl⟩ := Listing.Line.mk?_eq_some_iff.mp h
      obtain ⟨rest, hrest⟩ : throughLastWord (trimStart value) <+: trimStart value :=
        List.rdropWhile_prefix (!isWordChar ·) _
      have hname : behindName = behindName.takeWhile isBlank ++ '=' :: value := by
        rw [← hvalue]
        exact List.takeWhile_append_dropWhile.symm
      have hgap : value = value.takeWhile isBlank ++ trimStart value :=
        List.takeWhile_append_dropWhile.symm
      refine ⟨_, rest, ⟨behindName.takeWhile isBlank, value.takeWhile isBlank,
        isBlankText_takeWhile _, isBlankText_takeWhile _, rfl⟩, ?_⟩
      calc name ++ behindName
        _ = name ++ (behindName.takeWhile isBlank ++ '=' :: value) := congrArg (name ++ ·) hname
        _ = name ++ (behindName.takeWhile isBlank ++ '=' :: (value.takeWhile isBlank ++
              (throughLastWord (trimStart value) ++ rest))) := by rw [hrest, ← hgap]
        _ = _ := by simp [Shift.spaceIf]
    · cases h

theorem exists_lists_piece (p : Text) :
    ∃ xs : List (Stretch p), Lists xs (member? false (trim p)).toList := by
  cases h : member? false (trim p) with
  | none => exact ⟨[], .nil p⟩
  | some c =>
    obtain ⟨t, rest, ht, e⟩ := exists_of_member? h
    obtain ⟨a, b, -, -, hp⟩ := exists_eq_blank_append_trim p
    have hx : Lists [(⟨[], t, rest, e⟩ : Stretch (trim p))] [c] := .singleton ht
    exact ⟨_, hx.within hp⟩

theorem exists_lists_pieces (ps : List Text) :
    ∃ xs : List (Stretch (List.intercalate [','] ps)), Lists xs (constants false ps) := by
  induction ps with
  | nil => exact ⟨[], .nil _⟩
  | cons p ps ih =>
    obtain ⟨xs, hxs⟩ := exists_lists_piece p
    rw [constants_cons]
    cases ps with
    | nil =>
      rw [List.intercalate_singleton]
      exact ⟨xs, by simpa [constants] using hxs⟩
    | cons q ps =>
      obtain ⟨ys, hys⟩ := ih
      rw [List.intercalate_cons_cons]
      generalize List.intercalate [','] (q :: ps) = rest at ys
      have hp : p ++ [','] ++ rest = [] ++ p ++ ([','] ++ rest) := by simp
      have hrest : p ++ [','] ++ rest = (p ++ [',']) ++ rest ++ [] := by simp
      exact ⟨_, hxs.append hys hp hrest (List.prefix_append p [','])⟩

theorem intercalate_consFirst {ls : List Text} (h : ls ≠ []) (sep : Text) (x : Char) :
    List.intercalate sep (consFirst x ls) = x :: List.intercalate sep ls := by
  obtain ⟨l, ls, rfl⟩ := List.exists_cons_of_ne_nil h
  cases ls <;> simp [consFirst, List.intercalate_cons_cons]

/-- Between its segments a line has the commas, and nothing else. -/
theorem intercalate_segmentsFrom (depth : Nat) (s : Text) :
    List.intercalate [','] (segmentsFrom depth s) = s := by
  induction s generalizing depth with
  | nil => simp [segmentsFrom]
  | cons x s ih =>
    rw [segmentsFrom]
    split
    · next hx =>
      obtain rfl : x = ',' := by simpa using (Bool.and_eq_true_iff.mp hx).1
      obtain ⟨p, ps, hp⟩ := exists_segmentsFrom 0 s
      rw [hp, List.intercalate_cons_cons, ← hp, ih]
      rfl
    · obtain ⟨p, ps, hp⟩ := exists_segmentsFrom (depthAfter depth x) s
      rw [intercalate_consFirst (by simp [hp]), ih]

theorem exists_lists_segments (s : Text) :
    ∃ xs : List (Stretch s), Lists xs (constants false (segments s)) := by
  have h := exists_lists_pieces (segments s)
  rwa [segments, intercalate_segmentsFrom] at h

/-! ## Lines -/

theorem exists_lists_line (line : Text) : ∃ xs : List (Stretch line),
    Lists xs (lineMembers false line) ∧ ∀ x ∈ xs, IsBehindBrace (.whole line) x := by
  by_cases h : '\x7b' ∈ line
  · obtain ⟨u, v, rfl, hu⟩ := List.eq_append_cons_of_mem h
    obtain ⟨xs, hxs⟩ := exists_lists_segments v
    have e : u ++ '\x7b' :: v = (u ++ ['\x7b']) ++ v ++ [] := by simp
    have htake : (u ++ '\x7b' :: v).takeWhile (· != '\x7b') = u :=
      takeWhile_append_of_stops (bne_of_notMem hu) (stops_cons.mpr rfl)
    rw [lineMembers_append_brace hu]
    refine ⟨_, hxs.within e, ?_⟩
    simp only [List.mem_map]
    rintro _ ⟨x, -, rfl⟩ -
    change [] ++ (u ++ '\x7b' :: v).takeWhile (· != '\x7b') ++ ['\x7b'] <+: u ++ ['\x7b'] ++ x.before
    rw [htake]
    exact List.prefix_append _ _
  · obtain ⟨xs, hxs⟩ := exists_lists_segments line
    rw [lineMembers_of_notMem h]
    exact ⟨xs, hxs, fun _ _ hm ↦ absurd hm h⟩

theorem exists_lists_members (cell : Text) :
    ∃ xs : List (Stretch cell), Lists xs (members false cell) ∧ ∀ x ∈ xs, IsPlaced x := by
  induction h : lines cell generalizing cell with
  | nil => exact ⟨[], by rw [members, h]; exact .nil _, by simp⟩
  | cons line ls ih =>
    have hne : cell ≠ [] := by
      rintro rfl
      cases h
    obtain ⟨line', ending, rest, e, hlines, hwhole⟩ := exists_first_line hne
    obtain ⟨rfl, rfl⟩ := List.cons.inj (hlines.symm.trans h)
    obtain ⟨xs, hxs, hbrace⟩ := exists_lists_line line'
    obtain ⟨ys, hys, hplaced⟩ := ih rest rfl
    have hline : cell = [] ++ line' ++ (ending ++ rest) := by simpa using e
    have hrest : cell = (line' ++ ending) ++ rest ++ [] := by simpa using e
    have hmembers : members false cell = lineMembers false line' ++ members false rest := by
      rw [members, hlines, List.flatMap_cons]
      rfl
    rw [hmembers]
    refine ⟨_, hxs.append hys hline hrest (by simp), ?_⟩
    rw [List.forall_mem_append]
    simp only [List.mem_map]
    constructor
    · rintro _ ⟨x, hx, rfl⟩
      exact ⟨_, Stretch.isLine_first hline hlines, x.liesIn_whole.within hline,
        (hbrace x hx).within hline⟩
    · rintro _ ⟨y, hy, rfl⟩
      obtain ⟨l, hl, hlies, hb⟩ := hplaced y hy
      exact ⟨_, hl.within hrest (hwhole.resolve_left hl.ne_nil), hlies.within hrest,
        hb.within hrest⟩

/-- Each constant of a cell, with its value as it is written, is a stretch of the text of the cell.
These stretches come in the order of the constants and share no character, and each of them lies on
one line, behind the first opening brace of the line if it has one. -/
theorem exists_stretches (left right : Text) : ∃ xs : List (Stretch right),
    List.Forall₂ (fun x c ↦ Assigns x.text c) xs (declaration false left right).members ∧
      xs.Pairwise Stretch.Precedes ∧ ∀ x ∈ xs, IsPlaced x := by
  obtain ⟨xs, hxs, hplaced⟩ := exists_lists_members right
  exact ⟨xs, hxs.assigns, hxs.ordered, hplaced⟩

end Typings.Page.Initializer
