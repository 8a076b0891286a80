import Typings.Proofs.Declaration.WellFormed
import Typings.Proofs.Page.Pieces
import Typings.Proofs.Spacing
import Typings.Proofs.Text.Word

/-!
# Initializer lists

A list of constants in braces is read back however it is laid out, with line ends and other blanks
between its parts and with a comma behind the last constant or without: what follows a constant up
to the next comma, line end or closing brace holds no word, and so is not taken for a part of its
value (`constants_item_append`).  From a listing with the same constants comes the same
(`declaration_of_list`).
-/

namespace Typings.Page.Initializer

open Text

variable {on : Bool} {c : Constant} {cs : List Constant} {b p s t name : Text}
variable {ps items : List Text}

/-! ## Descriptions -/

/-- A constant that can be given in a list: its value has the form of those that are read and is cut
neither by a line end nor by a brace or a comma. -/
structure IsItem (c : Constant) : Prop where
  name : Identifier.check c.name = true
  cutOut : IsCutOut c.value
  no_newline : '\n' ∉ c.value
  no_brace : '\x7b' ∉ c.value
  no_comma : NoComma 0 c.value
  closed : depthFrom 0 c.value = 0

instance (c : Constant) : Decidable (IsItem c) :=
  decidable_of_iff (Identifier.check c.name = true ∧ IsCutOut c.value ∧ '\n' ∉ c.value ∧
      '\x7b' ∉ c.value ∧ NoComma 0 c.value ∧ depthFrom 0 c.value = 0)
    ⟨fun ⟨h₁, h₂, h₃, h₄, h₅, h₆⟩ ↦ ⟨h₁, h₂, h₃, h₄, h₅, h₆⟩,
      fun ⟨h₁, h₂, h₃, h₄, h₅, h₆⟩ ↦ ⟨h₁, h₂, h₃, h₄, h₅, h₆⟩⟩

/-- A constant as it is written. -/
def itemText (c : Constant) : Text := c.name ++ " = ".toList ++ c.value

/-- The text gives the constant, between blanks. -/
def WritesItem (c : Constant) (t : Text) : Prop :=
  ∃ before behind, isBlankText before = true ∧ isBlankText behind = true ∧
    t = before ++ itemText c ++ behind

/-- The text lists the constants up to the brace that closes the list. There are commas between
them, perhaps one behind the last of them, and blanks, line ends among them, wherever they may
stand. -/
def WritesList (cs : List Constant) (t : Text) : Prop :=
  ∃ items before comma behind, List.Forall₂ WritesItem cs items ∧ isBlankText before = true ∧
    isBlankText behind = true ∧ (comma = [] ∨ comma = ",".toList) ∧
      t = List.intercalate ",".toList items ++ before ++ comma ++ behind ++ "\x7d".toList

/-! ## Pieces without a word -/

theorem member?_eq_none (h : ∀ x ∈ s, isWordChar x = false) : member? on s = none := by
  cases s with
  | nil => rfl
  | cons x r =>
    have hx : Identifier.isHead x = false := by
      rw [← Bool.not_eq_true]
      intro hhead
      have hword := isWordChar_of_isTail (Identifier.isTail_of_isHead hhead)
      rw [h x List.mem_cons_self] at hword
      cases hword
    rw [member?, Identifier.read?, hx]
    rfl

/-- The text goes on without a word up to the end of its first piece, and the pieces behind that one
have these constants. -/
def EndsPiece (s : Text) (cs : List Constant) : Prop :=
  ∃ p ps, piecesFrom 0 s = p :: ps ∧ (∀ x ∈ p, isWordChar x = false) ∧ constants false ps = cs

theorem EndsPiece.constants_eq (h : EndsPiece s cs) : constants false (piecesFrom 0 s) = cs := by
  obtain ⟨p, ps, hs, hp, rfl⟩ := h
  have htrim : ∀ x ∈ trim p, isWordChar x = false := fun x hx ↦ hp x (trim_subset p hx)
  rw [hs, constants_cons, member?_eq_none htrim]
  rfl

theorem endsPiece_comma (s : Text) : EndsPiece (',' :: s) (constants false (piecesFrom 0 s)) :=
  ⟨[], piecesFrom 0 s, rfl, by simp, rfl⟩

theorem endsPiece_close : EndsPiece "\x7d".toList [] :=
  ⟨"\x7d".toList, [], rfl, List.forall_mem_singleton.mpr rfl, rfl⟩

/-- Blanks in front, line ends or not, leave it as it is. -/
theorem EndsPiece.blank_append (h : EndsPiece s cs) (hb : isBlankText b = true) :
    EndsPiece (b ++ s) cs := by
  induction b with
  | nil => exact h
  | cons x b ih =>
    obtain ⟨hx, hb⟩ := List.forall_mem_cons.mp (isBlankText_iff.mp hb)
    have ih := ih (isBlankText_iff.mpr hb)
    by_cases hn : x = '\n'
    · subst hn
      exact ⟨[], piecesFrom 0 (b ++ s), rfl, by simp, ih.constants_eq⟩
    · obtain ⟨p, ps, hs, hp, hcs⟩ := ih
      have hmarks : ∀ y ∈ [x], y ∉ marks := by simpa using notMem_marks_of_isBlank hx
      exact ⟨x :: p, ps, piecesFrom_append_of_notMem (by simpa using Ne.symm hn) hmarks hs,
        List.forall_mem_cons.mpr ⟨isWordChar_of_isBlank hx, hp⟩, hcs⟩

/-! ## One constant -/

theorem IsItem.trimEnd_itemText (hc : IsItem c) : trimEnd (itemText c) = itemText c := by
  rw [trimEnd_eq_self_iff, itemText, List.getLast?_append_of_ne_nil _ hc.cutOut.ne_nil]
  exact hc.cutOut.isBlank_getLast?

/-- What has no word in it does not become part of the value in front of it. -/
theorem IsItem.member?_append (hc : IsItem c) (hp : ∀ x ∈ p, isWordChar x = false) :
    member? false (itemText c ++ p) = some c := by
  have e : itemText c ++ p = c.name ++ ' ' :: '=' :: ' ' :: (c.value ++ p) := by simp [itemText]
  have hread : Identifier.read? (itemText c ++ p) =
      some (c.name, ' ' :: '=' :: ' ' :: (c.value ++ p)) :=
    Identifier.read?_eq_some_iff.mpr ⟨e, hc.name, stops_cons.mpr rfl⟩
  have hvalue : trimStart (' ' :: (c.value ++ p)) = c.value ++ p :=
    trimStart_of_stops (hc.cutOut.stops_append p)
  rw [member?, hread]
  change Constant.mk? c.name (throughLastWord (trimStart (' ' :: (c.value ++ p)))) = some c
  rw [hvalue, throughLastWord_append hc.cutOut.last hp, Listing.Line.mk?_eq_some_iff]
  exact ⟨hc.name, hc.cutOut.isBlankText_eq, rfl⟩

theorem IsItem.member?_trim (hc : IsItem c) (hp : ∀ x ∈ p, isWordChar x = false) :
    member? false (trim (itemText c ++ p)) = some c := by
  have hstart : Stops isBlank (itemText c ++ p) := by
    rw [itemText, List.append_assoc, List.append_assoc]
    exact Identifier.stops_isBlank_append hc.name _
  have hend : ∀ x ∈ trimEnd p, isWordChar x = false :=
    fun x hx ↦ hp x (reverse_dropWhile_subset isBlank p hx)
  rw [trim, trimStart_of_stops hstart, trimEnd_append_of_eq hc.trimEnd_itemText]
  exact hc.member?_append hend

theorem IsItem.piecesFrom_append (hc : IsItem c) (h : piecesFrom 0 s = p :: ps) :
    piecesFrom 0 (itemText c ++ s) = (itemText c ++ p) :: ps := by
  have hname : ∀ x ∈ c.name, x ∉ marks ∧ x ≠ '\n' := fun x hx ↦
    Identifier.of_isTail (P := fun x ↦ x ∉ marks ∧ x ≠ '\n') (by decide)
      (Identifier.isTail_of_mem hc.name x hx)
  have hplain : ∀ x ∈ c.name ++ " = ".toList, x ∉ marks ∧ x ≠ '\n' :=
    List.forall_mem_append.mpr ⟨hname, by simp [marks]⟩
  have hvalue : piecesFrom 0 (c.value ++ s) = (c.value ++ p) :: ps :=
    Initializer.piecesFrom_append hc.no_newline hc.no_comma (by rw [hc.closed, h])
  have hall := piecesFrom_append_of_notMem (fun hm ↦ (hplain _ hm).2 rfl)
    (fun x hx ↦ (hplain x hx).1) hvalue
  rwa [← List.append_assoc, ← List.append_assoc] at hall

/-- A constant in front of the end of a piece is found, and then those behind it. -/
theorem constants_item_append (hc : IsItem c) (h : EndsPiece s cs) :
    constants false (piecesFrom 0 (itemText c ++ s)) = c :: cs := by
  obtain ⟨p, ps, hs, hp, rfl⟩ := h
  rw [hc.piecesFrom_append hs, constants_cons, hc.member?_trim hp]
  rfl

theorem constants_writesItem_append (hc : IsItem c) (ht : WritesItem c t) (h : EndsPiece s cs) :
    constants false (piecesFrom 0 (t ++ s)) = c :: cs := by
  obtain ⟨before, behind, hbefore, hbehind, rfl⟩ := ht
  rw [List.append_assoc, List.append_assoc, constants_piecesFrom_blank_append hbefore]
  exact constants_item_append hc (h.blank_append hbehind)

/-! ## Lists -/

theorem constants_items_append (h : List.Forall₂ WritesItem cs items) (hcs : ∀ c ∈ cs, IsItem c)
    (hs : EndsPiece s []) :
    constants false (piecesFrom 0 (List.intercalate ",".toList items ++ s)) = cs := by
  induction h with
  | nil => exact hs.constants_eq
  | @cons c t cs items ht hts ih =>
    rw [List.forall_mem_cons] at hcs
    have ih := ih hcs.2
    cases hts with
    | nil =>
      rw [List.intercalate_singleton]
      exact constants_writesItem_append hcs.1 ht hs
    | @cons c' t' cs items ht' hts' =>
      have hcomma := endsPiece_comma (List.intercalate ",".toList (t' :: items) ++ s)
      rw [ih] at hcomma
      rw [List.intercalate_cons_cons, List.append_assoc, List.append_assoc]
      exact constants_writesItem_append hcs.1 ht hcomma

/-- What may stand behind the last constant ends its piece, and no constant follows. -/
theorem endsPiece_tail {before comma behind : Text} (hbefore : isBlankText before = true)
    (hbehind : isBlankText behind = true) (hcomma : comma = [] ∨ comma = ",".toList) :
    EndsPiece (before ++ comma ++ behind ++ "\x7d".toList) [] := by
  have hclose := endsPiece_close.blank_append hbehind
  rw [List.append_assoc, List.append_assoc]
  refine EndsPiece.blank_append ?_ hbefore
  rcases hcomma with rfl | rfl
  · exact hclose
  · have h := endsPiece_comma (behind ++ "\x7d".toList)
    rwa [hclose.constants_eq] at h

theorem constants_of_writesList (hcs : ∀ c ∈ cs, IsItem c) (ht : WritesList cs t) :
    constants false (piecesFrom 0 t) = cs := by
  obtain ⟨items, before, comma, behind, hitems, hbefore, hbehind, hcomma, rfl⟩ := ht
  rw [List.append_assoc, List.append_assoc, List.append_assoc]
  have htail := endsPiece_tail hbefore hbehind hcomma
  rw [List.append_assoc, List.append_assoc] at htail
  exact constants_items_append hitems hcs htail

theorem brace_notMem_of_writesItem (hc : IsItem c) (ht : WritesItem c t) : '\x7b' ∉ t := by
  obtain ⟨before, behind, hbefore, hbehind, rfl⟩ := ht
  have hname : '\x7b' ∉ c.name := Identifier.notMem_of_check hc.name rfl
  have hbefore' : '\x7b' ∉ before := notMem_of_isBlankText hbefore rfl
  have hbehind' : '\x7b' ∉ behind := notMem_of_isBlankText hbehind rfl
  simp [itemText, hname, hc.no_brace, hbefore', hbehind']

theorem brace_notMem_items (h : List.Forall₂ WritesItem cs items) (hcs : ∀ c ∈ cs, IsItem c) :
    '\x7b' ∉ List.intercalate ",".toList items := by
  induction h with
  | nil => simp
  | @cons c t cs items ht hts ih =>
    rw [List.forall_mem_cons] at hcs
    replace ih := ih hcs.2
    have ht := brace_notMem_of_writesItem hcs.1 ht
    cases hts with
    | nil => rwa [List.intercalate_singleton]
    | cons =>
      rw [List.intercalate_cons_cons, List.mem_append, List.mem_append, not_or, not_or]
      exact ⟨⟨ht, by decide⟩, ih⟩

theorem brace_notMem_of_writesList (hcs : ∀ c ∈ cs, IsItem c) (ht : WritesList cs t) :
    '\x7b' ∉ t := by
  obtain ⟨items, before, comma, behind, hitems, hbefore, hbehind, hcomma, rfl⟩ := ht
  have hitems' := brace_notMem_items hitems hcs
  have hbefore' : '\x7b' ∉ before := notMem_of_isBlankText hbefore rfl
  have hcomma' : '\x7b' ∉ comma := by rcases hcomma with rfl | rfl <;> decide
  have hbehind' : '\x7b' ∉ behind := notMem_of_isBlankText hbehind rfl
  simpa [hbefore', hcomma', hbehind'] using hitems'

theorem firstWord_append (hn : Identifier.check name = true) (hs : Stops (!isBlank ·) s) :
    firstWord (name ++ s) = name := by
  have hname : ∀ x ∈ name, (!isBlank x) = true := by
    intro x hx
    rw [Identifier.isBlank_of_isTail (Identifier.isTail_of_mem hn x hx)]
    rfl
  rw [firstWord, trimStart_of_stops (Identifier.stops_isBlank_append hn s),
    takeWhile_append_of_stops hname hs]

/-- A list of constants behind a name gives the declaration of this name with these constants. -/
theorem declaration_of_writesList (hn : Identifier.check name = true) (hcs : ∀ c ∈ cs, IsItem c)
    (ht : WritesList cs t) (left : Text) :
    declaration false left (name ++ " = \x7b".toList ++ t) = ⟨firstWord left, name, cs⟩ := by
  have hbrace : '\x7b' ∉ name ++ " = ".toList := by
    simpa using Identifier.notMem_of_check hn rfl
  have hnewline : '\n' ∉ name ++ " = ".toList := by
    simpa using Identifier.notMem_of_check hn rfl
  have hword : firstWord (name ++ " = ".toList ++ '\x7b' :: t) = name := by
    rw [List.append_assoc]
    exact firstWord_append hn (stops_cons.mpr rfl)
  have e : name ++ " = \x7b".toList ++ t = name ++ " = ".toList ++ '\x7b' :: t := by simp
  rw [declaration, e, hword,
    members_append_brace hbrace hnewline (brace_notMem_of_writesList hcs ht),
    constants_of_writesList hcs ht]

/-! ## Listings -/

theorem IsItem.isValue (hc : IsItem c) (hcomment : ¬ Listing.Line.HasComment c.value) :
    Listing.IsValue c.value :=
  ⟨hc.cutOut.isBlankText_eq, hc.no_newline, hcomment, hc.cutOut.trimEnd_eq⟩

/-- The constants of a list, each on a line of a listing, are those of the table. -/
theorem records_of_isItem (hn : Identifier.check name = true) (hcs : ∀ c ∈ cs, IsItem c)
    (hcomment : ∀ c ∈ cs, ¬ Listing.Line.HasComment c.value) (o : Listing.Options) {source : Text}
    (hs : lines source = Listing.openerLine name :: (cs.map Listing.entryLine ++ ["\x7d".toList])) :
    (Listing.parse o source).records = [(⟨Declaration.enumKind, name, cs⟩ : Declaration).mapValues
      (Shift.spaceIf o.spaceShifts)] := by
  have htable : Listing.IsTable ⟨Declaration.enumKind, name, cs⟩ :=
    ⟨rfl, hn, fun c hc ↦ (hcs c hc).name, fun c hc ↦ (hcs c hc).isValue (hcomment c hc)⟩
  have hgap : ∀ s ∈ ([] : List Text), s = [] := by simp
  have hdeclares := Listing.declares_tableOf htable o.spaceShifts hgap
  have hlines : lines source = [] ++
      [Listing.tableOf ⟨Declaration.enumKind, name, cs⟩ []].flatMap Listing.Table.lines := by
    rw [hs, List.flatMap_singleton]
    rfl
  rw [Listing.parse_of_tables hlines (by simp) (.cons hdeclares .nil)]

/-- A list of constants is read back from the right cell however it is laid out, with the values
spaced or not, and a listing with these constants in a table of this name, a line for each, gives
the same if none of them holds a comment. -/
theorem declaration_of_list (hn : Identifier.check name = true) (hcs : ∀ c ∈ cs, IsItem c)
    (ht : WritesList cs t) (left : Text) :
    declaration false left (name ++ " = \x7b".toList ++ t) = ⟨firstWord left, name, cs⟩ ∧
      declaration true left (name ++ " = \x7b".toList ++ t) =
        (⟨firstWord left, name, cs⟩ : Declaration).mapValues Shift.space ∧
      ((∀ c ∈ cs, ¬ Listing.Line.HasComment c.value) → ∀ (o : Listing.Options) (source : Text),
        lines source = Listing.openerLine name :: (cs.map Listing.entryLine ++ ["\x7d".toList]) →
          (Listing.parse o source).records = [⟨Declaration.enumKind, name,
            (declaration o.spaceShifts left (name ++ " = \x7b".toList ++ t)).members⟩]) := by
  have hdeclaration := declaration_of_writesList hn hcs ht left
  have hspaced : ∀ on, declaration on left (name ++ " = \x7b".toList ++ t) =
      (⟨firstWord left, name, cs⟩ : Declaration).mapValues (Shift.spaceIf on) := by
    intro on
    rw [declaration_eq_mapValues, hdeclaration]
  refine ⟨hdeclaration, hspaced true, fun hcomment o source hs ↦ ?_⟩
  rw [records_of_isItem hn hcs hcomment o hs, hspaced]
  rfl

/-- Two constants of one name on lines of their own, the first with a nested comma and the second
with a literal that is spaced, and a comma behind the second. -/
theorem declaration_of_list_on_lines :
    let cs : List Constant := [⟨"A".toList, "f(1, [2]) | x".toList⟩, ⟨"A".toList, "1<<2".toList⟩]
    let right := "Flags = \x7b\n  A = f(1, [2]) | x,\n  A = 1<<2 ,\r\n\x7d".toList
    let source := "Flags = \x7b\n  A = f(1, [2]) | x,\n  A = 1<<2,\n\x7d\n".toList
    declaration false " static\tint".toList right = ⟨"static".toList, "Flags".toList, cs⟩ ∧
      declaration true " static\tint".toList right = ⟨"static".toList, "Flags".toList,
        [⟨"A".toList, "f(1, [2]) | x".toList⟩, ⟨"A".toList, "1 << 2".toList⟩]⟩ ∧
      ∀ o : Listing.Options, (Listing.parse o source).records = [⟨Declaration.enumKind,
        "Flags".toList, (declaration o.spaceShifts " static\tint".toList right).members⟩] := by
  intro cs right source
  have hitems : List.Forall₂ WritesItem cs
      ["\n  A = f(1, [2]) | x".toList, "\n  A = 1<<2 ".toList] :=
    .cons ⟨"\n  ".toList, [], rfl, rfl, rfl⟩
      (.cons ⟨"\n  ".toList, " ".toList, rfl, rfl, rfl⟩ .nil)
  have hname : Identifier.check "Flags".toList = true := by decide
  have hcs : ∀ c ∈ cs, IsItem c := by decide
  obtain ⟨hraw, hspaced, hlisting⟩ := declaration_of_list hname hcs
    ⟨_, [], ",".toList, "\r\n".toList, hitems, rfl, rfl, .inr rfl, rfl⟩ " static\tint".toList
  have hdash : ∀ c ∈ cs, '-' ∉ c.value := by decide
  have hcomment : ∀ c ∈ cs, ¬ Listing.Line.HasComment c.value :=
    fun c hc ↦ Listing.Line.not_hasComment_of_notMem (hdash c hc)
  exact ⟨hraw, hspaced, fun o ↦ hlisting hcomment o source (by decide)⟩

end Typings.Page.Initializer
