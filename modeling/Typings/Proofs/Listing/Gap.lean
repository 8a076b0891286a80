import Typings.Proofs.Listing.Comments
import Typings.Proofs.Listing.Segmentation

/-!
# Lines behind a table

The line that closes a table does not end it: all lines up to the next one that opens a table count
as lines of this one (`parse_of_table`).  So a line behind a closed table that gives a constant adds
it to this table, in its place, and a line that gives none changes no record (`parse_insert`).
-/

namespace Typings.Listing

open Line (IsOpener Opens Gives withoutComment)

variable {spaceShifts : Bool} {o : Options} {source source' line name : Text}
variable {front body xs ys behind after : List Text} {ds : List Declaration}

/-- A line closes a table: before its comment, and blanks aside, it has a closing brace with at most
a comma or a semicolon. -/
def Line.Closes (line : Text) : Prop :=
  Text.trim (withoutComment line) ∈ ["\x7d".toList, "\x7d,".toList, "\x7d;".toList]

instance (line : Text) : Decidable (Line.Closes line) := inferInstanceAs (Decidable (_ ∈ _))

/-- Lines that open a table of this name, go on with its body up to the first line that closes it,
and then with lines behind it.  None of them but the first opens a table. -/
structure IsClosedTable (name opener : Text) (body : List Text) (closing : Text)
    (behind : List Text) : Prop where
  opens : Opens opener name
  body : ∀ line ∈ body, ¬ Line.Closes line ∧ ¬ IsOpener line
  closes : Line.Closes closing ∧ ¬ IsOpener closing
  behind : ∀ line ∈ behind, ¬ IsOpener line

theorem isReading_of_tables {preamble : List Text} {tables : List Table}
    (hp : ∀ line ∈ preamble, ¬ IsOpener line)
    (ht : List.Forall₂ (Table.Declares spaceShifts) tables ds) :
    IsReading spaceShifts (preamble ++ tables.flatMap Table.lines)
      ⟨ds, unread spaceShifts (1 + preamble.length) (tables.flatMap Table.lines)⟩ :=
  ⟨preamble, tables, rfl, hp, ht, pairwise_unread _ _ _, fun _ ↦ mem_unread_tables_iff⟩

/-- What stands in front of an opener, and what follows the lines without a further opener, is read
by itself.  Between them is one table, with the constants of its lines. -/
theorem parse_of_table {opener : Text} (front ys : List Text) (hopens : Opens opener name) :
    ∃ l ds rest, IsReading o.spaceShifts front l ∧ ∀ source xs, (∀ line ∈ xs, ¬ IsOpener line) →
      Text.lines source = front ++ opener :: (xs ++ ys) →
        (parse o source).records = l.records ++
          ⟨Declaration.enumKind, name, constants o.spaceShifts xs ++ rest⟩ :: ds := by
  obtain ⟨preamble, tables, ds, rfl, hp, ht⟩ := exists_tables o.spaceShifts front
  obtain ⟨tail, tables', ds', rfl, hp', ht'⟩ := exists_tables o.spaceShifts ys
  refine ⟨_, ds', constants o.spaceShifts tail, isReading_of_tables hp ht, ?_⟩
  intro source xs hxs hs
  have htable : Table.Declares o.spaceShifts ⟨opener, xs ++ tail⟩
      ⟨Declaration.enumKind, name, constants o.spaceShifts (xs ++ tail)⟩ :=
    ⟨rfl, hopens, List.forall_mem_append.mpr ⟨hxs, hp'⟩, collects_iff.mpr rfl⟩
  have hall := List.rel_append ht (.cons htable ht')
  have hlines : Text.lines source =
      preamble ++ (tables ++ ⟨opener, xs ++ tail⟩ :: tables').flatMap Table.lines := by
    rw [hs, List.flatMap_append, List.flatMap_cons, Table.lines]
    simp only [List.append_assoc, List.cons_append]
  rw [parse_of_tables hlines hp hall, constants_append]

/-- A line behind a closed table, and in front of the next one, that gives a constant adds it to the
closed table, behind the constants of the lines before it.  A line that gives none changes no
record. -/
theorem parse_insert (o : Options) {opener closing : Text}
    (htable : IsClosedTable name opener body closing behind) (hline : ¬ IsOpener line)
    (hs : Text.lines source = front ++ opener :: (body ++ closing :: behind ++ after))
    (hs' : Text.lines source' = front ++ opener :: (body ++ closing :: behind ++ line :: after)) :
    ∃ l cs cs' ds, IsReading o.spaceShifts front l ∧
      Collects o.spaceShifts (body ++ closing :: behind) cs ∧
      (parse o source).records = l.records ++ ⟨Declaration.enumKind, name, cs ++ cs'⟩ :: ds ∧
      (∀ c, Gives o.spaceShifts line c → (parse o source').records =
        l.records ++ ⟨Declaration.enumKind, name, cs ++ c :: cs'⟩ :: ds) ∧
      ((∀ c, ¬ Gives o.spaceShifts line c) →
        (parse o source').records = (parse o source).records) := by
  have hxs : ∀ x ∈ body ++ closing :: behind, ¬ IsOpener x :=
    List.forall_mem_append.mpr ⟨fun x hx ↦ (htable.body x hx).2,
      List.forall_mem_cons.mpr ⟨htable.closes.2, htable.behind⟩⟩
  have hxs' : ∀ x ∈ body ++ closing :: behind ++ [line], ¬ IsOpener x :=
    List.forall_mem_append.mpr ⟨hxs, by simpa using hline⟩
  obtain ⟨l, ds, rest, hl, hparse⟩ := parse_of_table front after htable.opens (o := o)
  have hwithout := hparse source _ hxs hs
  have hwith := hparse source' _ hxs' (hs'.trans (by simp))
  rw [constants_append, List.append_assoc] at hwith
  refine ⟨l, _, rest, ds, hl, collects_iff.mpr rfl, hwithout, fun c hc ↦ ?_, fun hnone ↦ ?_⟩
  · rw [hwith, constants_cons_of_gives hc]
    rfl
  · rw [hwith, hwithout, constants_cons_of_not_gives hnone]
    rfl

/-- The second table has nothing to do with the line in front of it. -/
theorem parse_insert_between :
    let source := "A = \x7b\n  X = 1,\n\x7d;\n\nB = \x7b\n\x7d\n".toList
    let source' := "A = \x7b\n  X = 1,\n\x7d;\n\nN = 2 -- n\nB = \x7b\n\x7d\n".toList
    let c : Constant := ⟨"N".toList, "2".toList⟩
    IsClosedTable "A".toList "A = \x7b".toList ["  X = 1,".toList] "\x7d;".toList [[]] ∧
      ¬ IsOpener "N = 2 -- n".toList ∧ Gives true "N = 2 -- n".toList c ∧
      ∃ l cs cs' ds, IsReading true [] l ∧
        (parse {} source).records = l.records ++ ⟨Declaration.enumKind, "A".toList, cs ++ cs'⟩ :: ds ∧
        (parse {} source').records =
          l.records ++ ⟨Declaration.enumKind, "A".toList, cs ++ c :: cs'⟩ :: ds := by
  intro source source' c
  have htable : IsClosedTable "A".toList "A = \x7b".toList ["  X = 1,".toList] "\x7d;".toList [[]] :=
    ⟨Line.opened?_eq_some_iff.mp (by decide), by decide, by decide, by decide⟩
  have hline : ¬ IsOpener "N = 2 -- n".toList := by decide
  have hc : Gives true "N = 2 -- n".toList c :=
    Line.entry?_withoutComment_eq_some_iff.mp (by decide)
  have hs : Text.lines source = [] ++ "A = \x7b".toList ::
      (["  X = 1,".toList] ++ "\x7d;".toList :: [[]] ++ ["B = \x7b".toList, "\x7d".toList]) := by
    decide
  have hs' : Text.lines source' = [] ++ "A = \x7b".toList ::
      (["  X = 1,".toList] ++ "\x7d;".toList :: [[]] ++
        "N = 2 -- n".toList :: ["B = \x7b".toList, "\x7d".toList]) := by
    decide
  obtain ⟨l, cs, cs', ds, hl, -, hwithout, hwith, -⟩ := parse_insert {} htable hline hs hs'
  exact ⟨htable, hline, hc, l, cs, cs', ds, hl, hwithout, hwith c hc⟩

-- An assignment behind the closing brace counts as a constant of the table.
theorem exists_constant_behind_table :
    ¬ ∀ (o : Options) (name opener closing line source source' : Text)
        (front body behind after : List Text),
      IsClosedTable name opener body closing behind → ¬ IsOpener line →
      Text.lines source = front ++ opener :: (body ++ closing :: behind ++ after) →
      Text.lines source' = front ++ opener :: (body ++ closing :: behind ++ line :: after) →
        (parse o source').records = (parse o source).records := by
  intro hall
  have hrecords := hall {} "A".toList "A = \x7b".toList "\x7d".toList "Y = 2".toList
    "A = \x7b\n  X = 1,\n\x7d\n".toList "A = \x7b\n  X = 1,\n\x7d\nY = 2\n".toList
    [] ["  X = 1,".toList] [] []
    ⟨Line.opened?_eq_some_iff.mp (by decide), by decide, by decide, by decide⟩
    (by decide) (by decide) (by decide)
  have hdiffers : (parse {} "A = \x7b\n  X = 1,\n\x7d\nY = 2\n".toList).records ≠
      (parse {} "A = \x7b\n  X = 1,\n\x7d\n".toList).records := by
    decide +kernel
  exact hdiffers hrecords

end Typings.Listing
