import Typings.Proofs.Block
import Typings.Proofs.Listing.Writing
import Typings.Proofs.Page.Records

/-!
# Documents read back

The lines of a document are those of its blocks, with one blank line between two blocks
(`lines_render`).  So the declarations can be read back from it (`read_render`), and no two lists of
declarations that come from sources have the same document (`render_of_produced`).
-/

namespace Typings

open Text

/-- A declaration comes from some source. -/
inductive Declaration.IsProduced (d : Declaration) : Prop
  | listing {o : Listing.Options} {source : Text} :
    d ∈ (Listing.parse o source).records → IsProduced d
  | page {o : Page.Options} {markup : Text} : d ∈ (Page.parse o markup).records → IsProduced d

variable {c : Constant} {cs : List Constant} {d : Declaration} {ds ds' : List Declaration}
variable {rest : List Text}

theorem Listing.IsTable.isPlain (h : Listing.IsTable d) : d.IsPlain where
  kind _ hc := by
    have hkind : Identifier.check d.kind = true := h.kind ▸ rfl
    exact Identifier.isBlank_of_isTail (Identifier.isTail_of_mem hkind _ hc)
  name _ hc := Identifier.isBlank_of_isTail (Identifier.isTail_of_mem h.name _ hc)
  names := h.names
  values c hc := (h.values c hc).no_newline

theorem Declaration.IsProduced.isPlain (h : d.IsProduced) : d.IsPlain := by
  cases h with
  | listing h => exact (Listing.isTable_of_mem_records h).isPlain
  | page h => exact Page.isPlain_of_mem_records h

/-! ## Lines -/

namespace Block

/-- The first line of a block. -/
def headerLine (d : Declaration) : Text :=
  "declare ".toList ++ d.kind ++ " ".toList ++ d.name ++ " \x7b".toList

def lines (d : Declaration) : List Text :=
  headerLine d :: (d.members.map Listing.entryLine ++ ["\x7d".toList])

theorem render_append (d : Declaration) (rest : Text) : render d ++ rest =
    headerLine d ++ '\n' :: (d.members.flatMap memberLine ++ "\x7d".toList ++ '\n' :: rest) := by
  have hopen : " \x7b\n".toList = " \x7b".toList ++ ['\n'] := rfl
  have hclose : "\x7d\n".toList = "\x7d".toList ++ ['\n'] := rfl
  unfold render headerLine
  simp only [hopen, hclose, List.append_assoc, List.cons_append, List.nil_append]

theorem getLast?_headerLine (d : Declaration) : (headerLine d).getLast? = some '\x7b' := by
  have hopen : " \x7b".toList = [' '] ++ ['\x7b'] := rfl
  unfold headerLine
  rw [hopen, ← List.append_assoc, List.getLast?_concat]

theorem notMem_of_not_blank {s : Text} {c : Char} (h : ∀ c ∈ s, isBlank c = false)
    (hc : isBlank c = true) : c ∉ s := by
  intro hm
  rw [h c hm] at hc
  cases hc

theorem newline_notMem_headerLine (h : d.IsPlain) : '\n' ∉ headerLine d := by
  have hkind : '\n' ∉ d.kind := notMem_of_not_blank h.kind rfl
  have hname : '\n' ∉ d.name := notMem_of_not_blank h.name rfl
  have hwords : '\n' ∉ "declare ".toList ∧ '\n' ∉ " ".toList ∧ '\n' ∉ " \x7b".toList := by decide
  unfold headerLine
  simp only [List.mem_append, hkind, hname, hwords, or_self, not_false_eq_true]

theorem lines_render_append (h : d.IsPlain) (rest : Text) :
    Text.lines (render d ++ rest) = lines d ++ Text.lines rest := by
  have hheader : (headerLine d).getLast? ≠ some '\r' := by
    rw [getLast?_headerLine]
    decide
  rw [render_append, lines_append_newline (newline_notMem_headerLine h) hheader, List.append_assoc,
    Listing.lines_members_append h.names h.values, lines_append_newline (by decide) (by decide)]
  simp only [lines, List.cons_append, List.append_assoc, List.nil_append]

/-- No line of a block is blank, as each ends in a brace or a comma. -/
theorem not_blank_of_mem_lines {line : Text} (h : line ∈ lines d) : isBlankText line = false := by
  have hlast : ∀ c, line.getLast? = some c → isBlank c = false → isBlankText line = false := by
    intro c hc hb
    rw [← Bool.not_eq_true, isBlankText_iff]
    intro hblank
    rw [hblank c (List.mem_of_getLast? hc)] at hb
    cases hb
  rcases List.mem_cons.mp h with rfl | h
  · exact hlast _ (getLast?_headerLine d) rfl
  · rcases List.mem_append.mp h with h | h
    · obtain ⟨c, -, rfl⟩ := List.mem_map.mp h
      exact hlast _ (Listing.getLast?_entryLine c) rfl
    · rw [List.mem_singleton.mp h]
      rfl

end Block

namespace Document

theorem render_cons_cons (d d' : Declaration) (ds : List Declaration) :
    render (d :: d' :: ds) = Block.render d ++ '\n' :: render (d' :: ds) := by
  simp [render_eq_intercalate, List.intercalate_cons_cons]

/-- One blank line stands between the lines of two blocks. -/
theorem lines_render (h : ∀ d ∈ ds, d.IsPlain) :
    Text.lines (render ds) = List.intercalate [[]] (ds.map Block.lines) := by
  induction ds with
  | nil => rfl
  | cons d ds ih =>
    rw [List.forall_mem_cons] at h
    cases ds with
    | nil =>
      have := Block.lines_render_append h.1 []
      simpa [render_eq_intercalate, Text.lines] using this
    | cons d' ds =>
      have hblank : Text.lines ('\n' :: render (d' :: ds)) = [] :: Text.lines (render (d' :: ds)) :=
        lines_append_newline (a := []) (by simp) (by simp) _
      rw [render_cons_cons, Block.lines_render_append h.1, hblank, ih h.2]
      simp [List.intercalate_cons_cons]

/-- A document ends with the closing brace of its last block and one line feed. -/
theorem exists_render_eq (h : ds.getLast? = some d) :
    ∃ front, render ds = front ++ Block.opening d ++ "\x7d\n".toList := by
  have hblock : ∀ d, Block.render d = Block.opening d ++ "\x7d\n".toList := fun _ ↦ rfl
  induction ds with
  | nil => cases h
  | cons d' ds ih =>
    cases ds with
    | nil =>
      cases h
      exact ⟨[], by simp [render_eq_intercalate, hblock]⟩
    | cons d'' ds =>
      obtain ⟨front, e⟩ := ih h
      exact ⟨Block.render d' ++ '\n' :: front, by simp [render_cons_cons, e]⟩

/-! ## Reading back -/

/-- The constant on a line of a block. -/
def constantOf (line : Text) : Constant :=
  let s := line.drop "  ".toList.length
  let value := (s.dropWhile Identifier.isTail).drop " = ".toList.length
  ⟨s.takeWhile Identifier.isTail, value.dropLast⟩

/-- The declaration whose block starts with a line. -/
def declarationOf (line : Text) (members : List Constant) : Declaration :=
  let s := line.drop "declare ".toList.length
  let name := (s.dropWhile (· != ' ')).drop " ".toList.length
  ⟨s.takeWhile (· != ' '), name.takeWhile (· != ' '), members⟩

/-- Adds a line in front of the blocks that were read, and of the constants that stand before the
first of them. -/
def addLine (line : Text) (read : List Declaration × List Constant) :
    List Declaration × List Constant :=
  if "  ".toList.isPrefixOf line then (read.1, constantOf line :: read.2)
  else if "declare ".toList.isPrefixOf line then (declarationOf line read.2 :: read.1, [])
  else read

/-- Reads the blocks of a document from its end. -/
def read (s : Text) : List Declaration := ((Text.lines s).foldr addLine ([], [])).1

theorem constantOf_entryLine (h : Identifier.check c.name = true) :
    constantOf (Listing.entryLine c) = c := by
  have e : (Listing.entryLine c).drop "  ".toList.length =
      c.name ++ (" = ".toList ++ (c.value ++ ",".toList)) := by
    simp only [Listing.entryLine, List.append_assoc, List.drop_left]
  have htail := Identifier.isTail_of_mem h
  have hstops : Stops Identifier.isTail (" = ".toList ++ (c.value ++ ",".toList)) :=
    stops_cons.mpr (by decide)
  rw [constantOf, e]
  simp only [takeWhile_append_of_stops htail hstops, dropWhile_append_of_stops htail hstops,
    List.drop_left]
  rw [show ",".toList = [','] from rfl, List.dropLast_concat]

theorem declarationOf_headerLine (h : d.IsPlain) (cs : List Constant) :
    declarationOf (Block.headerLine d) cs = ⟨d.kind, d.name, cs⟩ := by
  have e : (Block.headerLine d).drop "declare ".toList.length =
      d.kind ++ (" ".toList ++ (d.name ++ " \x7b".toList)) := by
    unfold Block.headerLine
    simp only [List.append_assoc, List.drop_left]
  have hkind : ∀ c ∈ d.kind, (c != ' ') = true :=
    bne_of_notMem (Block.notMem_of_not_blank h.kind rfl)
  have hname : ∀ c ∈ d.name, (c != ' ') = true :=
    bne_of_notMem (Block.notMem_of_not_blank h.name rfl)
  have hspace : ∀ s, Stops (· != ' ') (" ".toList ++ s) := fun _ ↦ stops_cons.mpr rfl
  have hbrace : Stops (· != ' ') " \x7b".toList := stops_cons.mpr rfl
  rw [declarationOf, e]
  simp only [takeWhile_append_of_stops hkind (hspace _),
    dropWhile_append_of_stops hkind (hspace _), List.drop_left,
    takeWhile_append_of_stops hname hbrace]

theorem addLine_entryLine (h : Identifier.check c.name = true)
    (read : List Declaration × List Constant) :
    addLine (Listing.entryLine c) read = (read.1, c :: read.2) := by
  have hprefix : "  ".toList.isPrefixOf (Listing.entryLine c) = true := rfl
  rw [addLine, if_pos hprefix, constantOf_entryLine h]

theorem addLine_headerLine (h : d.IsPlain) (read : List Declaration × List Constant) :
    addLine (Block.headerLine d) read = (⟨d.kind, d.name, read.2⟩ :: read.1, []) := by
  have hspace : ¬ "  ".toList.isPrefixOf (Block.headerLine d) = true := nofun
  have hprefix : "declare ".toList.isPrefixOf (Block.headerLine d) = true := rfl
  rw [addLine, if_neg hspace, if_pos hprefix, declarationOf_headerLine h]

theorem foldr_entryLines (h : ∀ c ∈ cs, Identifier.check c.name = true)
    (read : List Declaration × List Constant) :
    (cs.map Listing.entryLine).foldr addLine read = (read.1, cs ++ read.2) := by
  induction cs with
  | nil => rfl
  | cons c cs ih =>
    rw [List.forall_mem_cons] at h
    rw [List.map_cons, List.foldr_cons, ih h.2, addLine_entryLine h.1]
    rfl

theorem foldr_block (h : d.IsPlain) (ds : List Declaration) :
    (Block.lines d).foldr addLine (ds, []) = (d :: ds, []) := by
  have hclose : addLine "\x7d".toList (ds, []) = (ds, []) := rfl
  rw [Block.lines, List.foldr_cons, List.foldr_append, List.foldr_cons, List.foldr_nil, hclose,
    foldr_entryLines h.names, addLine_headerLine h, List.append_nil]

/-- The lines of blocks are read as the blocks, whatever blank lines there are between them. -/
theorem foldr_blocks (h : ∀ d ∈ ds, d.IsPlain) :
    (List.intercalate [[]] (ds.map Block.lines)).foldr addLine ([], []) = (ds, []) := by
  induction ds with
  | nil => rfl
  | cons d ds ih =>
    rw [List.forall_mem_cons] at h
    have ih := ih h.2
    cases ds with
    | nil =>
      rw [List.map_singleton, List.intercalate_singleton]
      exact foldr_block h.1 []
    | cons d' ds =>
      have hblank : addLine [] (d' :: ds, []) = (d' :: ds, []) := rfl
      rw [List.map_cons] at ih ⊢
      rw [List.map_cons, List.intercalate_cons_cons, List.append_assoc, List.foldr_append,
        List.foldr_append, ih, List.foldr_cons, List.foldr_nil, hblank, foldr_block h.1]

theorem read_render (h : ∀ d ∈ ds, d.IsPlain) : read (render ds) = ds := by
  rw [read, lines_render h, foldr_blocks h]

/-- No other declarations from sources have the same document.  Its blank lines are those between
two blocks, it ends with its last block, and the declarations can be read back from it. -/
theorem render_of_produced (h : ∀ d ∈ ds, d.IsProduced) :
    (∀ ds', (∀ d ∈ ds', d.IsProduced) → render ds' = render ds → ds' = ds) ∧
      Text.lines (render ds) = List.intercalate [[]] (ds.map Block.lines) ∧
      (∀ d ∈ ds, ∀ line ∈ Block.lines d, isBlankText line = false) ∧
      (∀ d, ds.getLast? = some d →
        ∃ front, render ds = front ++ Block.opening d ++ "\x7d\n".toList) ∧
      read (render ds) = ds := by
  have hplain : ∀ d ∈ ds, d.IsPlain := fun d hd ↦ (h d hd).isPlain
  refine ⟨?_, lines_render hplain, fun _ _ _ ↦ Block.not_blank_of_mem_lines,
    fun _ ↦ exists_render_eq, read_render hplain⟩
  intro ds' h' e
  have hread := read_render fun d hd ↦ (h' d hd).isPlain
  rw [e, read_render hplain] at hread
  exact hread.symm

/-- A value and a name may be braces, and a kind may be empty. -/
theorem render_of_produced_braces :
    let fromListing : Declaration := ⟨"enum".toList, "A".toList, [⟨"X".toList, "\x7d,\x7b".toList⟩]⟩
    let fromPage : Declaration := ⟨[], "\x7b".toList, [⟨"B".toList, "1".toList⟩]⟩
    (∀ d ∈ [fromListing, fromPage], d.IsProduced) ∧
      Document.read (Document.render [fromListing, fromPage]) = [fromListing, fromPage] := by
  intro fromListing fromPage
  have hlisting : fromListing ∈
      (Listing.parse {} "A = \x7b\n  X = \x7d,\x7b,\n\x7d\n".toList).records := by
    decide +kernel
  have hpage : fromPage ∈ (Page.parse {}
      "<tr class='memitem:x'><td class='memItemRight'>\x7b B = 1</td></tr>".toList).records := by
    decide +kernel
  have hproduced : ∀ d ∈ [fromListing, fromPage], d.IsProduced := by
    intro d hd
    simp only [List.mem_cons, List.not_mem_nil, or_false] at hd
    rcases hd with rfl | rfl
    · exact .listing hlisting
    · exact .page hpage
  exact ⟨hproduced, (render_of_produced hproduced).2.2.2.2⟩

end Document

end Typings
