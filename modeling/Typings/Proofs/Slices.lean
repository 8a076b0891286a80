import Typings.Listing
import Typings.Proofs.Markup.Slices
import Typings.Proofs.Page.Pieces

/-!
# Slices of cells and listings

A line of a cell is cut behind its first brace and at its commas, and a line of a listing in front
of its comment.  Cut out by byte offsets the parts are the same, and no slice fails, whatever the
text (`every_slice_at_boundaries`): the braces, commas and dashes are single bytes and stand between
characters.
-/

namespace Typings

open Text

/-! ## Descriptions -/

namespace Page.Initializer

/-- The part of a line behind its first opening brace. -/
def listPartBySlices? (line : Text) : Option Text :=
  match offsetOf? ['\x7b'] line with
  | none => some line
  | some pos => slice? line (pos + 1) (byteLength line)

/-- Splits a line at its commas of depth zero, given the depth at an offset, the rest of the line
behind it, and the offset at which the open segment starts. -/
def segmentsBySlices? (line : Text) (depth start pos : Nat) : Text → Option (List Text)
  | [] => (slice? line start (byteLength line)).map ([·])
  | c :: r =>
    if c == ',' && depth == 0 then
      (slice? line start pos).bind fun segment =>
        (segmentsBySlices? line 0 (pos + 1) (pos + c.utf8Size) r).map (segment :: ·)
    else segmentsBySlices? line (depthAfter depth c) start (pos + c.utf8Size) r

def lineMembersBySlices? (spaceShifts : Bool) (line : Text) : Option (List Constant) :=
  (listPartBySlices? (trim line)).bind fun part =>
    (segmentsBySlices? part 0 0 0 part).map fun segments =>
      segments.filterMap fun segment => member? spaceShifts (trim segment)

def declarationBySlices? (spaceShifts : Bool) (left right : Text) : Option Declaration :=
  ((lines right).mapM (lineMembersBySlices? spaceShifts)).map fun members =>
    ⟨firstWord left, firstWord right, members.flatten⟩

end Page.Initializer

namespace Listing

/-- The part of a line in front of its first `--`. -/
def Line.withoutCommentBySlices? (line : Text) : Option Text :=
  match offsetOf? "--".toList line with
  | none => some line
  | some pos => slice? line 0 pos

def Line.readBySlices? (spaceShifts : Bool) (line : Text) : Option Line :=
  match Line.opened? line with
  | some name => some (.opener name)
  | none =>
    (Line.withoutCommentBySlices? line).map fun code =>
      match Line.entry? spaceShifts code with
      | some c => .entry c
      | none => if Line.isStructural code then .structural else .unknown

def linesBySlices? (spaceShifts : Bool) (source : Text) : Option (List Line) :=
  (lines source).mapM (Line.readBySlices? spaceShifts)

end Listing

/-! ## Cells -/

namespace Page.Initializer

variable {depth : Nat} {s : Text}

theorem breakOn_singleton (c : Char) (s : Text) :
    breakOn [c] s = (s.takeWhile (· != c), s.dropWhile (· != c)) := by
  induction s with
  | nil => rfl
  | cons d r ih =>
    rw [breakOn] at ih
    by_cases hd : d = c
    · subst hd
      simp [breakOn, breakAt]
    · simp [breakOn, breakAt, ih, hd, Ne.symm hd]

theorem listPartBySlices?_eq (line : Text) : listPartBySlices? line = some (listPart line) := by
  have hline : line.takeWhile (· != '\x7b') ++ line.dropWhile (· != '\x7b') = line :=
    List.takeWhile_append_dropWhile
  have hstops := stops_dropWhile (· != '\x7b') line
  rw [listPartBySlices?, offsetOf?_eq (by decide), breakOn_singleton, listPart]
  generalize line.takeWhile (· != '\x7b') = front at hline
  generalize line.dropWhile (· != '\x7b') = rest at hline hstops
  cases rest with
  | nil => rfl
  | cons c rest =>
    obtain rfl : c = '\x7b' := by simpa using hstops
    have hrest := slice?_back (front ++ ['\x7b']) rest
    rw [byteLength_append front, List.append_assoc, List.singleton_append, hline] at hrest
    exact hrest

/-- The line is what stands in front of the open segment, that segment so far, and the rest. -/
theorem segmentsBySlices?_eq (front segment rest : Text) (depth : Nat) :
    segmentsBySlices? (front ++ segment ++ rest) depth (byteLength front)
        (byteLength (front ++ segment)) rest =
      some ((segmentsFrom depth rest).modifyHead (segment ++ ·)) := by
  induction rest generalizing front segment depth with
  | nil =>
    rw [segmentsBySlices?, List.append_nil, slice?_back]
    simp [segmentsFrom]
  | cons c r ih =>
    rw [segmentsBySlices?, segmentsFrom]
    split
    · next h =>
      obtain ⟨rfl, -⟩ : c = ',' ∧ depth = 0 := by simpa using h
      have hcomma : ','.utf8Size = 1 := rfl
      have hrest := ih (front ++ segment ++ [',']) [] 0
      obtain ⟨p, ps, hp⟩ := exists_segmentsFrom 0 r
      rw [slice?_append, Option.bind_some]
      simpa [hp, hcomma, ← Nat.add_assoc] using hrest
    · have hrest := ih front (segment ++ [c]) (depthAfter depth c)
      obtain ⟨p, ps, hp⟩ := exists_segmentsFrom (depthAfter depth c) r
      simpa [hp, consFirst, ← Nat.add_assoc] using hrest

theorem segmentsBySlices?_zero (line : Text) :
    segmentsBySlices? line 0 0 0 line = some (segments line) := by
  obtain ⟨p, ps, hp⟩ := exists_segmentsFrom 0 line
  have h := segmentsBySlices?_eq [] [] line 0
  rw [hp] at h
  rw [segments, hp]
  exact h

theorem lineMembersBySlices?_eq (spaceShifts : Bool) (line : Text) :
    lineMembersBySlices? spaceShifts line = some (lineMembers spaceShifts line) := by
  rw [lineMembersBySlices?, listPartBySlices?_eq, Option.bind_some, segmentsBySlices?_zero]
  rfl

theorem declarationBySlices?_eq (spaceShifts : Bool) (left right : Text) :
    declarationBySlices? spaceShifts left right = some (declaration spaceShifts left right) := by
  have hlines : lineMembersBySlices? spaceShifts = (pure <| lineMembers spaceShifts ·) :=
    funext (lineMembersBySlices?_eq spaceShifts)
  rw [declarationBySlices?, hlines, List.mapM_pure, declaration, members, List.flatMap]
  rfl

end Page.Initializer

/-! ## Listings -/

namespace Listing

theorem Line.withoutCommentBySlices?_eq (line : Text) :
    Line.withoutCommentBySlices? line = some (Line.withoutComment line) := by
  have hline := breakAt_append "--".toList.isPrefixOf line
  rw [Line.withoutCommentBySlices?, offsetOf?_eq (by decide), Line.withoutComment, breakOn]
  generalize breakAt "--".toList.isPrefixOf line = parts at hline
  obtain ⟨code, rest⟩ := parts
  obtain rfl : code ++ rest = line := hline
  cases rest with
  | nil => exact congrArg some (List.append_nil code)
  | cons c rest => exact slice?_front code (c :: rest)

theorem Line.readBySlices?_eq (spaceShifts : Bool) (line : Text) :
    Line.readBySlices? spaceShifts line = some (Line.read spaceShifts line) := by
  unfold Line.readBySlices? Line.read
  cases Line.opened? line with
  | some name => rfl
  | none =>
    rw [Line.withoutCommentBySlices?_eq]
    rfl

theorem linesBySlices?_eq (spaceShifts : Bool) (source : Text) :
    linesBySlices? spaceShifts source = some ((lines source).map (Line.read spaceShifts)) := by
  have hlines : Line.readBySlices? spaceShifts = (pure <| Line.read spaceShifts ·) :=
    funext (Line.readBySlices?_eq spaceShifts)
  rw [linesBySlices?, hlines, List.mapM_pure]
  rfl

end Listing

/-- No part of a text is cut out beyond its end or inside of a character. A cut and a slice are at
boundaries between characters, in order, or fail; with every part cut out like that the events of a
document, the declaration of two cells and the lines of a listing are what they are. -/
theorem every_slice_at_boundaries :
    (∀ s n a b, cut? s n = some (a, b) ↔
      IsBoundary s n ∧ utf8 a = (utf8 s).take n ∧ utf8 b = (utf8 s).drop n) ∧
    (∀ s i j t, slice? s i j = some t ↔
      (i ≤ j ∧ IsBoundary s i ∧ IsBoundary s j) ∧ utf8 t = (utf8 s).extract i j) ∧
    (∀ markup, Markup.eventsBySlices? markup = some (Markup.events markup)) ∧
    (∀ spaceShifts left right, Page.Initializer.declarationBySlices? spaceShifts left right =
      some (Page.Initializer.declaration spaceShifts left right)) ∧
    (∀ spaceShifts source, Listing.linesBySlices? spaceShifts source =
      some ((lines source).map (Listing.Line.read spaceShifts))) :=
  ⟨fun _ _ _ _ ↦ cut?_eq_some_iff_utf8, fun _ _ _ _ ↦ slice?_eq_some_iff_utf8,
    Markup.eventsBySlices?_eq, Page.Initializer.declarationBySlices?_eq, Listing.linesBySlices?_eq⟩

end Typings
