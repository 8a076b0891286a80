import Typings.Proofs.Document
import Typings.Proofs.Page.Accounts

/-!
# Headers of member rows

A record of a page is made at the end of a member row, of the texts that the scan has collected by
then (`exists_closed_row`).  Its kind and its name are the first words of the two texts, if they
have any, so the header of its block is complete if, and only if, neither text is blank
(`isHeader_of_mem_records`).
-/

namespace Typings

open Text

/-- A word is not empty and holds no blank. -/
structure Text.IsWord (w : Text) : Prop where
  ne_nil : w ≠ []
  not_blank : ∀ c ∈ w, isBlank c = false

variable {s line : Text} {d : Declaration}

namespace Text

/-- There is a first word in every text but the blank ones. -/
theorem firstWord_ne_nil_iff : firstWord s ≠ [] ↔ isBlankText s = false := by
  have hstops : Stops isBlank (trimStart s) := stops_dropWhile isBlank s
  cases h : trimStart s with
  | nil =>
    have hblank : isBlankText s = true := isBlankText_iff.mpr (List.dropWhile_eq_nil_iff.mp h)
    simp [firstWord, h, hblank]
  | cons c r =>
    rw [h, stops_cons] at hstops
    have hblank : isBlankText s = false := by
      rw [← Bool.not_eq_true, isBlankText_iff, ← List.dropWhile_eq_nil_iff]
      intro hnil
      rw [trimStart, hnil] at h
      cases h
    simp [firstWord, h, hstops, hblank]

end Text

namespace Block

/-- The words of a header stand one space apart. -/
def header (kind name : Text) : Text :=
  List.intercalate " ".toList ["declare".toList, kind, name, "\x7b".toList]

/-- A complete header has two words between `declare` and the opening brace. -/
def IsHeader (line : Text) : Prop :=
  ∃ kind name, IsWord kind ∧ IsWord name ∧ line = header kind name

theorem headerLine_eq (d : Declaration) : headerLine d = header d.kind d.name := by
  have hjoin : header d.kind d.name = "declare".toList ++ " ".toList ++ d.kind ++ " ".toList ++
      d.name ++ (" ".toList ++ "\x7b".toList) := by
    simp only [header, List.intercalate_cons_cons, List.intercalate_singleton, List.append_assoc]
  rw [hjoin]
  rfl

/-- Between its spaces a header has these four parts, whether they are empty or not. -/
theorem splitOn_header {kind name : Text} (hkind : ∀ c ∈ kind, isBlank c = false)
    (hname : ∀ c ∈ name, isBlank c = false) :
    (header kind name).splitOn ' ' = ["declare".toList, kind, name, "\x7b".toList] := by
  have hkind' : ' ' ∉ kind := notMem_of_not_blank hkind rfl
  have hname' : ' ' ∉ name := notMem_of_not_blank hname rfl
  exact List.splitOn_intercalate ' ' (by simp [hkind', hname']) (by simp)

theorem isHeader_headerLine_iff (h : d.IsPlain) :
    IsHeader (headerLine d) ↔ d.kind ≠ [] ∧ d.name ≠ [] := by
  constructor
  · rintro ⟨kind, name, hkind, hname, e⟩
    have hparts := congrArg (List.splitOn ' ') e
    rw [headerLine_eq, splitOn_header h.kind h.name,
      splitOn_header hkind.not_blank hname.not_blank] at hparts
    obtain ⟨hk, hn, -⟩ : d.kind = kind ∧ d.name = name ∧ True := by simpa using hparts
    exact ⟨hk ▸ hkind.ne_nil, hn ▸ hname.ne_nil⟩
  · rintro ⟨hkind, hname⟩
    exact ⟨d.kind, d.name, ⟨hkind, h.kind⟩, ⟨hname, h.name⟩, headerLine_eq d⟩

theorem exists_lines_render (h : d.IsPlain) :
    ∃ rest, Text.lines (render d) = headerLine d :: rest := by
  have hlines := lines_render_append h []
  rw [List.append_nil] at hlines
  exact ⟨_, hlines⟩

end Block

namespace Page

open Markup

variable {o : Options} {es : List Event}

/-- A member row ends among the events, with these texts collected in its cells. -/
def Row.Closes (o : Options) (es : List Event) (left right : Text) : Prop :=
  ∃ before after, es = before ++ .endTag "tr".toList :: after ∧
    (Scan.run o {} before).2.inRow = true ∧ (Scan.run o {} before).2.left = left ∧
    (Scan.run o {} before).2.right = right

/-- A record is given at the end of a row, of the texts collected in the row up to there. -/
theorem Row.Scan.exists_end_of_mem_run {scan : Row.Scan} (h : d ∈ (scan.run o es).1) :
    ∃ before after, es = before ++ .endTag "tr".toList :: after ∧
      (scan.run o before).2.inRow = true ∧
      d = Initializer.declaration o.spaceShifts (scan.run o before).2.left
        (scan.run o before).2.right := by
  induction es generalizing scan with
  | nil => cases h
  | cons e es ih =>
    rw [run_cons] at h
    rcases List.mem_append.mp h with h | h
    · have hstep : (scan.step o e).2 = some d := Option.mem_toList.mp h
      have hgiven : (scan.step o e).2 ≠ none := by
        rw [hstep]
        exact Option.some_ne_none d
      obtain ⟨rfl, hrow⟩ := step_ne_none_iff.mp hgiven
      exact ⟨[], es, rfl, hrow, step_eq_some hstep⟩
    · obtain ⟨before, after, rfl, hrow, hd⟩ := ih h
      exact ⟨e :: before, after, rfl, hrow, hd⟩

theorem exists_closed_row {markup : Text} (h : d ∈ (parse o markup).records) :
    ∃ left right, Row.Closes o (Markup.events markup) left right ∧
      d = Initializer.declaration o.spaceShifts left right := by
  obtain ⟨before, after, hes, hrow, hd⟩ := Row.Scan.exists_end_of_mem_run h
  exact ⟨_, _, ⟨before, after, hes, hrow, rfl, rfl⟩, hd⟩

/-- The header of a record has the first words of the texts collected in its row, and one space
between each two of its parts.  There is no kind if the left text is blank and no name if the right
one is, and the header is complete if, and only if, neither of them is. -/
theorem isHeader_of_mem_records (o : Options) (markup : Text)
    (h : d ∈ (parse o markup).records) :
    ∃ left right, Row.Closes o (Markup.events markup) left right ∧
      d = Initializer.declaration o.spaceShifts left right ∧
      (d.kind ≠ [] ↔ isBlankText left = false) ∧ (d.name ≠ [] ↔ isBlankText right = false) ∧
      ∃ header rest, Text.lines (Block.render d) = header :: rest ∧
        header.splitOn ' ' = ["declare".toList, d.kind, d.name, "\x7b".toList] ∧
        (Block.IsHeader header ↔ isBlankText left = false ∧ isBlankText right = false) := by
  have hplain := isPlain_of_mem_records h
  obtain ⟨left, right, hrow, hd⟩ := exists_closed_row h
  obtain ⟨rest, hlines⟩ := Block.exists_lines_render hplain
  have hkind : d.kind ≠ [] ↔ isBlankText left = false := by
    rw [hd]
    exact firstWord_ne_nil_iff
  have hname : d.name ≠ [] ↔ isBlankText right = false := by
    rw [hd]
    exact firstWord_ne_nil_iff
  refine ⟨left, right, hrow, hd, hkind, hname, _, rest, hlines, ?_, ?_⟩
  · rw [Block.headerLine_eq, Block.splitOn_header hplain.kind hplain.name]
  · rw [Block.isHeader_headerLine_iff hplain, hkind, hname]

/-- The first row is that of a constructor, which has a space that does not break in its left cell,
and the second one that of a function. -/
theorem isHeader_of_mem_records_class :
    let markup := "<tr class='memitem:a'><td class='memItemLeft'>&#160;</td>".toList ++
      "<td class='memItemRight'><b>Game</b> ()</td></tr>".toList ++
      "<tr class='memitem:b'><td class='memItemLeft'>static int&#160;</td>".toList ++
      "<td class='memItemRight'><b>rooms</b> ()</td></tr>".toList
    let constructed : Declaration := ⟨[], "Game".toList, []⟩
    let function : Declaration := ⟨"static".toList, "rooms".toList, []⟩
    (parse {} markup).records = [constructed, function] ∧
      (∃ left right, Row.Closes {} (Markup.events markup) left right ∧
        isBlankText left = true ∧ isBlankText right = false) ∧
      ∃ header rest, Text.lines (Block.render function) = header :: rest ∧
        Block.IsHeader header := by
  intro markup constructed function
  have hrecords : (parse {} markup).records = [constructed, function] := by decide +kernel
  have hconstructed : constructed ∈ (parse {} markup).records := by
    rw [hrecords]
    exact List.mem_cons_self
  have hfunction : function ∈ (parse {} markup).records := by
    rw [hrecords]
    exact List.mem_cons_of_mem _ List.mem_cons_self
  obtain ⟨left, right, hrow, -, hkind, hname, -⟩ := isHeader_of_mem_records {} markup hconstructed
  obtain ⟨left', right', -, -, hkind', hname', header, rest, hlines, -, hheader⟩ :=
    isHeader_of_mem_records {} markup hfunction
  have hleft : isBlankText left = true := by
    rw [← Bool.not_eq_false, ← hkind]
    exact fun h ↦ h rfl
  refine ⟨hrecords, ⟨left, right, hrow, hleft, hname.mp (by decide)⟩, header, rest, hlines, ?_⟩
  exact hheader.mpr ⟨hkind'.mp (by decide), hname'.mp (by decide)⟩

-- The row of a constructor makes a block without a kind.
theorem exists_not_isHeader :
    ¬ ∀ (o : Options) (markup : Text), ∀ d ∈ (parse o markup).records,
      d.kind ≠ [] ∧ d.name ≠ [] ∧
        ∃ header rest, Text.lines (Block.render d) = header :: rest ∧ Block.IsHeader header := by
  intro hall
  have hrecord : (⟨[], "Game".toList, []⟩ : Declaration) ∈ (parse {}
      ("<tr class=\"memitem:a\"><td class=\"memItemLeft\">&#160;</td>".toList ++
        "<td class=\"memItemRight\">Game ()</td></tr>".toList)).records := by
    decide +kernel
  exact (hall {} _ _ hrecord).1 rfl

end Page

end Typings
