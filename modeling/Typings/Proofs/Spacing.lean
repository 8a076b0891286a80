import Typings.Page
import Typings.Proofs.Listing.Writing
import Typings.Proofs.Page.Row

/-!
# Spacing and reading

Values are spaced while they are read, before it is checked that they are not blank.  As spacing
keeps blank texts apart from others, a reader that spaces values finds what the same reader finds
without, and the values are spaced all the same (`Line.read_eq_mapValue`, `member?_eq_map`).  A run
over all lines or all events carries that to listings and to pages (`parse_spaced`).
-/

namespace Typings

variable {f : Text → Text}

/-! ## Changing values -/

/-- Changes the value of a constant. -/
def Constant.mapValue (f : Text → Text) (c : Constant) : Constant := { c with value := f c.value }

/-- Changes all values in the records of a listing. -/
def Listing.mapValues (f : Text → Text) (l : Listing) : Listing :=
  { l with records := l.records.map (Declaration.mapValues f) }

/-- Changes all values in the records of a page. -/
def Page.mapValues (f : Text → Text) (p : Page) : Page :=
  { p with records := p.records.map (Declaration.mapValues f) }

/-- Spacing does not decide whether a constant is one. -/
theorem Constant.mk?_spaceIf (on : Bool) (name value : Text) :
    mk? name (Shift.spaceIf on value) = (mk? name value).map (mapValue (Shift.spaceIf on)) := by
  rw [mk?, mk?, Listing.Line.isBlankText_spaceIf]
  split <;> rfl

/-! ## Listings -/

namespace Listing

/-- Changes the value that a line gives. -/
def Line.mapValue (f : Text → Text) : Line → Line
  | .opener name => .opener name
  | .entry c => .entry (c.mapValue f)
  | .structural => .structural
  | .unknown => .unknown

/-- Changes the values in a record that was found. -/
def Finding.mapValues (f : Text → Text) : Finding → Finding
  | .table d => .table (d.mapValues f)
  | .skipped line owner => .skipped line owner

theorem Line.entry?_eq_map (on : Bool) (line : Text) :
    entry? on line = ( entry? false line).map (Constant.mapValue (Shift.spaceIf on)) := by
  unfold entry?
  split
  · exact Constant.mk?_spaceIf on _ _
  · rfl

theorem Line.read_eq_mapValue (on : Bool) (line : Text) :
    read on line = (read false line).mapValue (Shift.spaceIf on) := by
  rw [read, read, entry?_eq_map on]
  cases opened? line with
  | some name => rfl
  | none =>
    cases entry? false (withoutComment line) with
    | some c => rfl
    | none =>
      simp only [Option.map_none]
      split <;> rfl

theorem mapValues_addMember (d : Declaration) (c : Constant) :
    ({ d with members := d.members ++ [c] } : Declaration).mapValues f =
      { d.mapValues f with members := (d.mapValues f).members ++ [c.mapValue f] } := by
  simp [Declaration.mapValues, Constant.mapValue]

theorem foundAt_mapValues (f : Text → Text) (n : Nat) (x : Text) (current : Option Declaration)
    (line : Line) : foundAt n x (current.map (Declaration.mapValues f)) (line.mapValue f) =
      (foundAt n x current line).map (Finding.mapValues f) := by
  cases current <;> cases line <;> rfl

theorem openBehind_mapValues (f : Text → Text) (current : Option Declaration) (line : Line) :
    openBehind (current.map (Declaration.mapValues f)) (line.mapValue f) =
      (openBehind current line).map (Declaration.mapValues f) := by
  cases line with
  | entry c =>
    cases current with
    | none => rfl
    | some d => exact congrArg some (mapValues_addMember d c).symm
  | _ => rfl

/-- Reading with spacing goes from line to line as reading without does. -/
theorem findingsFrom_eq_map (on : Bool) (n : Nat) (current : Option Declaration)
    (lines : List Text) :
    findingsFrom on n (current.map (Declaration.mapValues (Shift.spaceIf on))) lines =
      (findingsFrom false n current lines).map (Finding.mapValues (Shift.spaceIf on)) := by
  induction lines generalizing n current with
  | nil => cases current <;> rfl
  | cons line lines ih =>
    rw [findingsFrom_cons, findingsFrom_cons, Line.read_eq_mapValue on, foundAt_mapValues,
      openBehind_mapValues, ih, List.map_append]

theorem ofFindings_map (f : Text → Text) (fs : List Finding) :
    ofFindings (fs.map (Finding.mapValues f)) = (ofFindings fs).mapValues f := by
  have hrecord : ∀ x : Finding,
      (x.mapValues f).record? = x.record?.map (Declaration.mapValues f) := by
    rintro (_ | _) <;> rfl
  have hskipped : ∀ x : Finding, (x.mapValues f).skipped? = x.skipped? := by
    rintro (_ | _) <;> rfl
  simp [ofFindings, mapValues, List.filterMap_map, List.map_filterMap, hrecord, hskipped]

theorem parse_eq_mapValues (o : Options) (source : Text) : parse o source =
    (parse { o with spaceShifts := false } source).mapValues (Shift.spaceIf o.spaceShifts) := by
  rw [parse, parse, ← ofFindings_map]
  exact congrArg ofFindings (findingsFrom_eq_map o.spaceShifts 1 none (Text.lines source))

end Listing

/-! ## Pages -/

namespace Page

namespace Initializer

theorem member?_eq_map (on : Bool) (segment : Text) :
    member? on segment = (member? false segment).map (Constant.mapValue (Shift.spaceIf on)) := by
  unfold member?
  split
  · rfl
  · split
    · exact Constant.mk?_spaceIf on _ _
    · rfl

theorem members_eq_map (on : Bool) (cell : Text) :
    members on cell = (members false cell).map (Constant.mapValue (Shift.spaceIf on)) := by
  have hline : ∀ line, lineMembers on line =
      (lineMembers false line).map (Constant.mapValue (Shift.spaceIf on)) := by
    intro line
    rw [lineMembers, lineMembers, List.map_filterMap]
    exact List.filterMap_congr fun segment _ ↦ member?_eq_map on (Text.trim segment)
  rw [members, members, List.map_flatMap]
  exact List.flatMap_congr fun line _ ↦ hline line

theorem declaration_eq_mapValues (on : Bool) (left right : Text) : declaration on left right =
    (declaration false left right).mapValues (Shift.spaceIf on) := by
  rw [declaration, members_eq_map]
  rfl

end Initializer

namespace Row.Scan

/-- Spacing has no say in where a scan goes. -/
theorem step_eq_map (o : Options) (s : Scan) (e : Markup.Event) : s.step o e =
    ((s.step { o with spaceShifts := false } e).1,
      (s.step { o with spaceShifts := false } e).2.map
        (Declaration.mapValues (Shift.spaceIf o.spaceShifts))) := by
  have hopens : opens { o with spaceShifts := false } e = opens o e := rfl
  have hside : side? { o with spaceShifts := false } e = side? o e := rfl
  rw [step, step, hopens, hside, Initializer.declaration_eq_mapValues]
  cases e.isStartOf "tr".toList with
  | true => rfl
  | false =>
    rcases s.place with _ | cell
    · rfl
    · cases e.isEndOf "tr".toList with
      | true => rfl
      | false =>
        rcases cell with _ | side
        · rfl
        · cases e with
          | text t => rfl
          | startTag name as => rfl
          | endTag name => cases (Markup.Event.endTag name).isEndOf "td".toList <;> rfl

theorem run_eq_map (o : Options) (s : Scan) (es : List Markup.Event) : s.run o es =
    ((s.run { o with spaceShifts := false } es).1.map
      (Declaration.mapValues (Shift.spaceIf o.spaceShifts)),
        (s.run { o with spaceShifts := false } es).2) := by
  induction es generalizing s with
  | nil => rfl
  | cons e es ih =>
    rw [run_cons, run_cons, step_eq_map, ih, List.map_append]
    cases (s.step { o with spaceShifts := false } e).2 <;> rfl

end Row.Scan

theorem parse_eq_mapValues (o : Options) (markup : Text) : parse o markup =
    (parse { o with spaceShifts := false } markup).mapValues (Shift.spaceIf o.spaceShifts) := by
  rw [parse, parse, ofEvents, Row.Scan.run_eq_map]
  rfl

end Page

/-- To space values while a source is read is to space the values of what is read without: the
records are the same in all else, as are the lines skipped and the rows seen.  Spacing comes to rest
after one time, and adds no more than a space on either side of the operator of a literal. -/
theorem parse_spaced (o : Listing.Options) (o' : Page.Options) (source markup : Text) :
    Listing.parse { o with spaceShifts := true } source =
        (Listing.parse { o with spaceShifts := false } source).mapValues Shift.space ∧
      Page.parse { o' with spaceShifts := true } markup =
        (Page.parse { o' with spaceShifts := false } markup).mapValues Shift.space ∧
      ∀ v, Shift.space (Shift.space v) = Shift.space v ∧
        (Shift.space v).filter (· != ' ') = v.filter (· != ' ') ∧
        (Shift.space v = v ∨ ∃ left right, Shift.IsLiteral v left right ∧
          Shift.space v = left ++ " << ".toList ++ right) := by
  refine ⟨?_, ?_, fun v ↦ ⟨Shift.space_space v, Shift.filter_space v, Shift.space_cases v⟩⟩
  · exact Listing.parse_eq_mapValues { o with spaceShifts := true } source
  · exact Page.parse_eq_mapValues { o' with spaceShifts := true } markup

end Typings
