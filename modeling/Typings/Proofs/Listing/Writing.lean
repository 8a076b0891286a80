import Typings.Block
import Typings.Proofs.Listing.Records

/-!
# Listings written and read again

Declarations are written as tables with the member lines of their blocks.  Each line written is read
as what it was written for (`declares_tableOf`), so reading a written listing gives the declarations
back, and reading and writing what was read changes nothing (`parse_write`).
-/

namespace Typings

open Text

/-- Changes all values of a declaration. -/
def Declaration.mapValues (f : Text → Text) (d : Declaration) : Declaration :=
  { d with members := d.members.map fun c ↦ { c with value := f c.value } }

namespace Listing

open Line (HasComment IsOpener Opens Unread entry? read withoutComment)

variable {on : Bool} {c : Constant} {d : Declaration} {ds : List Declaration} {line name : Text}

/-- A declaration as a table of a listing. -/
def tableText (d : Declaration) : Text :=
  d.name ++ " = \x7b\n".toList ++ d.members.flatMap Block.memberLine ++ "\x7d\n".toList

/-- Declarations as a listing, with a blank line between two tables. -/
def write (ds : List Declaration) : Text := List.intercalate "\n".toList (ds.map tableText)

/-! ## The lines written -/

/-- The line that opens a table. -/
def openerLine (name : Text) : Text := name ++ " = \x7b".toList

/-- The line that gives a constant. -/
def entryLine (c : Constant) : Text :=
  "  ".toList ++ c.name ++ " = ".toList ++ c.value ++ ",".toList

/-- The table written for a declaration, with further lines behind it. -/
def tableOf (d : Declaration) (gap : List Text) : Table :=
  ⟨openerLine d.name, d.members.map entryLine ++ "\x7d".toList :: gap⟩

theorem getLast?_entryLine (c : Constant) : (entryLine c).getLast? = some ',' :=
  List.getLast?_concat

theorem lines_memberLine_append (hn : Identifier.check c.name = true) (hv : '\n' ∉ c.value)
    (rest : Text) : lines (Block.memberLine c ++ rest) = entryLine c :: lines rest := by
  have hname : '\n' ∉ c.name := Identifier.notMem_of_check hn (by decide)
  have e : Block.memberLine c ++ rest = entryLine c ++ '\n' :: rest := by
    simp [Block.memberLine, entryLine]
  rw [e, lines_append_newline]
  · simp [entryLine, hname, hv]
  · simp [getLast?_entryLine]

theorem lines_members_append {cs : List Constant} (hn : ∀ c ∈ cs, Identifier.check c.name = true)
    (hv : ∀ c ∈ cs, '\n' ∉ c.value) (rest : Text) :
    lines (cs.flatMap Block.memberLine ++ rest) = cs.map entryLine ++ lines rest := by
  induction cs with
  | nil => rfl
  | cons c cs ih =>
    rw [List.forall_mem_cons] at hn hv
    rw [List.flatMap_cons, List.append_assoc, lines_memberLine_append hn.1 hv.1, ih hn.2 hv.2,
      List.map_cons, List.cons_append]

theorem lines_tableText_append (h : IsTable d) (rest : Text) :
    lines (tableText d ++ rest) = openerLine d.name ::
      (d.members.map entryLine ++ "\x7d".toList :: lines rest) := by
  have hname : '\n' ∉ d.name := Identifier.notMem_of_check h.name (by decide)
  have e : tableText d ++ rest = openerLine d.name ++ '\n' ::
      (d.members.flatMap Block.memberLine ++ ("\x7d".toList ++ '\n' :: rest)) := by
    simp [tableText, openerLine]
  rw [e, lines_append_newline, lines_members_append h.names fun c hc ↦ (h.values c hc).no_newline,
    lines_append_newline (by decide) (by decide)]
  · simp [openerLine, hname]
  · simp [openerLine]

/-- A written listing falls into the written tables. -/
theorem lines_write_cons (h : IsTable d) (d' : Declaration) (ds : List Declaration) :
    lines (write (d :: d' :: ds)) = (tableOf d [[]]).lines ++ lines (write (d' :: ds)) := by
  have e : write (d :: d' :: ds) = tableText d ++ '\n' :: write (d' :: ds) := by
    simp [write, List.intercalate_cons_cons]
  have hblank : lines ('\n' :: write (d' :: ds)) = [] :: lines (write (d' :: ds)) :=
    lines_append_newline (a := []) (by simp) (by simp) _
  rw [e, lines_tableText_append h, hblank]
  simp [tableOf, Table.lines]

theorem lines_write_singleton (h : IsTable d) : lines (write [d]) = (tableOf d []).lines := by
  have := lines_tableText_append h []
  simpa [write, tableOf, Table.lines, lines] using this

/-! ## Reading the lines written -/

theorem opens_openerLine (h : Identifier.check name = true) : Opens (openerLine name) name :=
  ⟨[], [], rfl, rfl, h, by simp [openerLine]⟩

/-- A line opens a table only if it ends in an opening brace. -/
theorem getLast?_of_isOpener (h : IsOpener line) : (trimEnd line).getLast? = some '\x7b' := by
  obtain ⟨name, indent, tail, -, ht, -, rfl⟩ := h
  rw [trimEnd_append_blank ht, show indent ++ (name ++ " = \x7b".toList) =
    indent ++ (name ++ " = ".toList) ++ ['\x7b'] by simp, trimEnd_concat (by decide)]
  simp

theorem not_isOpener_entryLine (c : Constant) : ¬ IsOpener (entryLine c) := by
  intro h
  have hlast := getLast?_of_isOpener h
  have hend : trimEnd (entryLine c) = entryLine c := trimEnd_concat (by decide) _
  rw [hend, getLast?_entryLine] at hlast
  cases hlast

theorem not_hasComment_entryLine (hn : Identifier.check c.name = true)
    (hv : ¬ HasComment c.value) : ¬ HasComment (entryLine c) := by
  have hname : ¬ HasComment c.name :=
    Line.not_hasComment_of_notMem (Identifier.notMem_of_check hn (by decide))
  have hnil : ¬ HasComment [] := by simp [HasComment]
  have e : entryLine c = ' ' :: ' ' :: (c.name ++ ' ' :: '=' :: ' ' :: (c.value ++ ',' :: [])) := by
    simp [entryLine]
  rw [e, Line.hasComment_cons (by decide), Line.hasComment_cons (by decide),
    Line.hasComment_append_cons (by decide), Line.hasComment_cons (by decide),
    Line.hasComment_cons (by decide), Line.hasComment_append_cons (by decide)]
  simp [hname, hv, hnil]

/-- The line written for a constant gives that constant. -/
theorem gives_entryLine (hn : Identifier.check c.name = true) (hv : IsValue c.value) (on : Bool) :
    Line.Gives on (entryLine c) { c with value := Shift.spaceIf on c.value } := by
  refine ⟨"  ".toList, c.value ++ ",".toList, c.value, ?_, by decide, hn, ?_, hv.not_blank, rfl⟩
  · have e : "  ".toList ++ c.name ++ " = ".toList ++ (c.value ++ ",".toList) = entryLine c := by
      simp [entryLine]
    rw [e]
    exact Line.isCode_self (not_hasComment_entryLine hn hv.no_comment)
  · exact ⟨[], ",".toList, [], by simp, rfl, rfl, hv.trimmed, .inl rfl⟩

theorem constants_members {cs : List Constant} (hn : ∀ c ∈ cs, Identifier.check c.name = true)
    (hv : ∀ c ∈ cs, IsValue c.value) (on : Bool) :
    constants on (cs.map entryLine) =
      cs.map fun c ↦ { c with value := Shift.spaceIf on c.value } := by
  induction cs with
  | nil => rfl
  | cons c cs ih =>
    rw [List.forall_mem_cons] at hn hv
    rw [List.map_cons, List.map_cons, constants_cons_of_gives (gives_entryLine hn.1 hv.1 on),
      ih hn.2 hv.2]

/-- The lines behind the last constant of a table, which say nothing. -/
theorem read_closing {gap : List Text} (hg : ∀ s ∈ gap, s = []) (on : Bool) :
    ∀ s ∈ "\x7d".toList :: gap, read on s = .structural := by
  intro s hs
  rcases List.mem_cons.mp hs with rfl | hs
  · cases on <;> decide
  · rw [hg s hs]
    cases on <;> decide

/-- The table written for a declaration declares it, its values spaced on request. -/
theorem declares_tableOf (h : IsTable d) (on : Bool) {gap : List Text} (hg : ∀ s ∈ gap, s = []) :
    (tableOf d gap).Declares on (d.mapValues (Shift.spaceIf on)) := by
  have hclosing := read_closing hg on
  refine ⟨h.kind, opens_openerLine h.name, fun s hs ↦ ?_, collects_iff.mpr ?_⟩
  · rcases List.mem_append.mp hs with hs | hs
    · obtain ⟨c, -, rfl⟩ := List.mem_map.mp hs
      exact not_isOpener_entryLine c
    · exact Line.not_isOpener_of_read (hclosing s hs)
  · rw [tableOf, constants_append, constants_members h.names h.values,
      constants_eq_nil fun s hs ↦ Line.not_gives_of_read (hclosing s hs), List.append_nil]
    rfl

theorem unread_tableOf (h : IsTable d) (on : Bool) {gap : List Text} (hg : ∀ s ∈ gap, s = []) :
    ∀ s ∈ (tableOf d gap).lines, ¬ Unread on s := by
  intro s hs
  rw [← Line.read_eq_unknown_iff]
  rcases List.mem_cons.mp hs with rfl | hs
  · simp [(declares_tableOf h on hg).name.read]
  · rcases List.mem_append.mp hs with hs | hs
    · obtain ⟨c, hc, rfl⟩ := List.mem_map.mp hs
      have hgives := gives_entryLine (h.names c hc) (h.values c hc) on
      simp [hgives.read (not_isOpener_entryLine c)]
    · simp [read_closing hg on s hs]

theorem exists_tables_write (h : ∀ d ∈ ds, IsTable d) (on : Bool) :
    ∃ tables, lines (write ds) = tables.flatMap Table.lines ∧
      List.Forall₂ (Table.Declares on) tables
        (ds.map (Declaration.mapValues (Shift.spaceIf on))) ∧
      ∀ s ∈ tables.flatMap Table.lines, ¬ Unread on s := by
  induction ds with
  | nil => exact ⟨[], rfl, .nil, by simp⟩
  | cons d ds ih =>
    rw [List.forall_mem_cons] at h
    cases ds with
    | nil =>
      have hgap : ∀ s ∈ ([] : List Text), s = [] := by simp
      refine ⟨[tableOf d []], by simp [lines_write_singleton h.1],
        .cons (declares_tableOf h.1 on hgap) .nil, ?_⟩
      simpa using unread_tableOf h.1 on hgap
    | cons d' ds =>
      obtain ⟨tables, hl, ht, hu⟩ := ih h.2
      refine ⟨tableOf d [[]] :: tables, by simp [lines_write_cons h.1, hl],
        .cons (declares_tableOf h.1 on (by simp)) ht, fun s hs ↦ ?_⟩
      rcases List.mem_append.mp hs with hs | hs
      · exact unread_tableOf h.1 on (by simp) s hs
      · exact hu s hs

/-- A written listing is read without a skipped line. -/
theorem parse_write_of_isTable (o : Options) (h : ∀ d ∈ ds, IsTable d) :
    parse o (write ds) = ⟨ds.map (Declaration.mapValues (Shift.spaceIf o.spaceShifts)), []⟩ := by
  obtain ⟨tables, hl, ht, hu⟩ := exists_tables_write h o.spaceShifts
  have hskipped : unread o.spaceShifts 1 (tables.flatMap Table.lines) = [] := by
    refine List.eq_nil_iff_forall_not_mem.mpr fun x hx ↦ ?_
    obtain ⟨-, hm, hx⟩ := mem_unread_iff.mp hx
    exact hu x.text (List.mem_of_getElem? hm) hx
  have hlines : lines (write ds) = [] ++ tables.flatMap Table.lines := hl
  rw [parse_of_tables hlines (by simp) ht]
  simp [hskipped]

theorem mapValues_eq_self {f : Text → Text} (h : ∀ c ∈ d.members, f c.value = c.value) :
    d.mapValues f = d := by
  have : d.members.map (fun c ↦ { c with value := f c.value }) = d.members :=
    (List.map_congr_left (g := id) fun c hc ↦ by rw [h c hc]; rfl).trans (List.map_id _)
  rw [Declaration.mapValues, this]

theorem map_mapValues_eq_self {f : Text → Text}
    (h : ∀ d ∈ ds, ∀ c ∈ d.members, f c.value = c.value) :
    ds.map (Declaration.mapValues f) = ds :=
  (List.map_congr_left (g := id) fun d hd ↦ mapValues_eq_self (h d hd)).trans (List.map_id _)

/-- Writing what was read from a listing and reading it again gives the same, with no line skipped.
So it is for all declarations that can be written as tables, but for the spacing asked for. -/
theorem parse_write (o : Options) :
    (∀ source, parse o (write (parse o source).records) = ⟨(parse o source).records, []⟩) ∧
      ∀ ds, (∀ d ∈ ds, IsTable d) →
        parse { o with spaceShifts := false } (write ds) = ⟨ds, []⟩ ∧
          parse { o with spaceShifts := true } (write ds) =
            ⟨ds.map (Declaration.mapValues Shift.space), []⟩ := by
  refine ⟨fun source ↦ ?_, fun ds h ↦ ⟨?_, ?_⟩⟩
  · rw [parse_write_of_isTable o fun d hd ↦ isTable_of_mem_records hd,
      map_mapValues_eq_self fun d hd c hc ↦ spaceIf_value hd hc]
  · rw [parse_write_of_isTable _ h, map_mapValues_eq_self fun d hd c hc ↦ rfl]
  · rw [parse_write_of_isTable _ h]
    rfl

/-- A value may look like an opener, end in a comma or be given twice. -/
theorem parse_write_flag :
    (∀ d ∈ [(⟨"enum".toList, "Flag".toList, [⟨"A".toList, "1<<2".toList⟩,
        ⟨"A".toList, " = \x7b,".toList⟩]⟩ : Declaration)], IsTable d) ∧
      parse { spaceShifts := true } (write [⟨"enum".toList, "Flag".toList,
          [⟨"A".toList, "1<<2".toList⟩, ⟨"A".toList, " = \x7b,".toList⟩]⟩]) =
        ⟨[⟨"enum".toList, "Flag".toList,
          [⟨"A".toList, "1 << 2".toList⟩, ⟨"A".toList, " = \x7b,".toList⟩]⟩], []⟩ := by
  refine ⟨by decide, ?_⟩
  exact ((parse_write {}).2 _ (by decide)).2.trans (by decide)

end Listing

end Typings
