import Typings.Page
import Typings.Proofs.Page.Grammar

/-!
# Pages written row by row

A page that is written as member rows with anything but a member row between them gives one
declaration for each row, of the texts of its two cells (`parse_of_written`).  What those texts are
does not matter: written with references they are neither markup nor part of another cell.
-/

namespace Typings.Page

open Markup Row

variable {left right id attributes t doc : Text} {rows : List (Text × Text)} {e : Event}

/-! ## Descriptions -/

/-- The text writes a cell with this content, as pieces that may stand in a cell. -/
inductive CellWritten : Text → Text → Prop
  | mk {es : List (Option Event)} {ts : List Text} : List.Forall₂ Writes es ts →
    (∀ e ∈ es.reduceOption, IsInline e) → CellWritten (es.reduceOption.flatMap content) ts.flatten

/-- A start tag `tr` opens a member row if its first class starts with `memitem:`. -/
def OpensMemberRow (e : Event) : Prop :=
  ∃ as a, e = .startTag "tr".toList as ∧ as.find? (·.name == "class".toList) = some a ∧
    "memitem:".toList <+: a.value

/-- The text writes pieces of which none opens a member row. -/
inductive FillerWritten : Text → Prop
  | mk {es : List (Option Event)} {ts : List Text} : List.Forall₂ Writes es ts →
    (∀ e ∈ es.reduceOption, ¬ OpensMemberRow e) → FillerWritten ts.flatten

/-- The markup of a cell with this class, further attributes and content. -/
def cellMarkup (label attributes content : Text) : Text :=
  "<td class=\"".toList ++ label ++ "\"".toList ++ attributes ++ ">".toList ++ content ++
    "</td>".toList

/-- The text writes a member row with these contents of its two cells. -/
inductive RowWritten : Text → Text → Text → Prop
  | mk {id i a b left right l r : Text} {as bs : List Attribute} :
    Reference.Encodes ['<', '>', '"'] id i →
    Tag.AttributesWritten as a → CellWritten left l →
    Tag.AttributesWritten bs b → CellWritten right r →
      RowWritten left right ("<tr class=\"memitem:".toList ++ i ++ "\">".toList ++
        cellMarkup "memItemLeft".toList a l ++ cellMarkup "memItemRight".toList b r ++
        "</tr>".toList)

/-- The text writes a page whose member rows have these contents of their left and right cells. -/
inductive Written : List (Text × Text) → Text → Prop
  | filler {t : Text} : FillerWritten t → Written [] t
  | row {left right t u rest : Text} {rows : List (Text × Text)} : FillerWritten t →
    RowWritten left right u → Written rows rest →
      Written ((left, right) :: rows) (t ++ u ++ rest)

/-! ## The pieces of a page -/

theorem opens_eq_true_iff : opens {} e = true ↔ OpensMemberRow e := opens_iff

theorem opens_eq_false (h : ¬ OpensMemberRow e) : opens {} e = false := opens_of_not_isRowStart h

theorem side?_class (as : List Attribute) (label : Text) :
    side? {} (.startTag "td".toList (⟨"class".toList, label⟩ :: as)) =
      if label = "memItemLeft".toList then some .left
      else if label = "memItemRight".toList then some .right else none := rfl

theorem attributesWritten_class {v : Text} {as : List Attribute}
    (h : Reference.Encodes ['<', '>', '"'] v t) (ha : Tag.AttributesWritten as attributes) :
    Tag.AttributesWritten (⟨"class".toList, v⟩ :: as)
      (" class=\"".toList ++ t ++ "\"".toList ++ attributes) := by
  have hw : Attribute.Written ⟨"class".toList, v⟩ ("class=\"".toList ++ t ++ "\"".toList) :=
    @Attribute.Written.quoted '"' "class".toList [] [] v t (.inl rfl) (by decide) rfl rfl h
  exact @Tag.AttributesWritten.cons _ as " ".toList _ _ (by decide) (by decide) hw ha

theorem writes_row (h : Reference.Encodes ['<', '>', '"'] id t) :
    Writes (some (.startTag "tr".toList [⟨"class".toList, "memitem:".toList ++ id⟩]))
      ("<tr class=\"memitem:".toList ++ t ++ "\">".toList) := by
  have hid : Reference.Encodes ['<', '>', '"'] ("memitem:".toList ++ id)
      ("memitem:".toList ++ t) := .append (.self (by decide)) h
  have hclose : Tag.AttributesWritten [] [] :=
    @Tag.AttributesWritten.close [] [] [] rfl rfl (.inl rfl)
  have hw : Writes (some (.startTag "tr".toList [⟨"class".toList, "memitem:".toList ++ id⟩])) _ :=
    .startTag (w := "tr".toList) (by decide) rfl (attributesWritten_class hid hclose)
  simpa using hw

theorem writes_cell (label : Text) {as : List Attribute}
    (h : Reference.IsPlain ['<', '>', '"'] label) (ha : Tag.AttributesWritten as attributes) :
    Writes (some (.startTag "td".toList (⟨"class".toList, label⟩ :: as)))
      ("<td class=\"".toList ++ label ++ "\"".toList ++ attributes ++ ">".toList) := by
  have hw : Writes (some (.startTag "td".toList (⟨"class".toList, label⟩ :: as))) _ :=
    .startTag (w := "td".toList) (by decide) rfl (attributesWritten_class (.self h) ha)
  simpa using hw

/-- A member row is written by pieces, and over these a scan gives its declaration. -/
theorem exists_pieces_of_rowWritten (h : RowWritten left right t) :
    ∃ es ts, List.Forall₂ Writes es ts ∧ t = ts.flatten ∧ ∀ n,
      Scan.run {} ⟨.outside, [], [], n⟩ es.reduceOption =
        ([Initializer.declaration true left right], ⟨.outside, [], [], n + 1⟩) := by
  obtain @⟨id, i, a, b, _, _, l, r, as, bs, hi, ha, @⟨ls, us, hls, hlin⟩, hb,
    @⟨rs, vs, hrs, hrin⟩⟩ := h
  have hrow : opens {} (.startTag "tr".toList [⟨"class".toList, "memitem:".toList ++ id⟩]) = true :=
    opens_eq_true_iff.mpr ⟨_, _, rfl, rfl, List.prefix_append _ _⟩
  have htd : Writes (some (.endTag "td".toList)) "</td>".toList :=
    @Writes.endTag "td".toList [] (by decide) rfl
  have htr : Writes (some (.endTag "tr".toList)) "</tr>".toList :=
    @Writes.endTag "tr".toList [] (by decide) rfl
  have hright : List.Forall₂ Writes (rs ++ [_, _]) (vs ++ [_, _]) :=
    List.rel_append hrs (.cons htd (.cons htr .nil))
  have hleft : List.Forall₂ Writes (ls ++ _ :: _ :: _) (us ++ _ :: _ :: _) :=
    List.rel_append hls (.cons htd
      (.cons (writes_cell "memItemRight".toList (by decide) hb) hright))
  refine ⟨_, _, .cons (writes_row hi)
    (.cons (writes_cell "memItemLeft".toList (by decide) ha) hleft), ?_, fun n ↦ ?_⟩
  · unfold cellMarkup
    simp only [List.flatten_cons, List.flatten_append, List.flatten_nil, List.append_assoc,
      List.append_nil]
  · simp only [List.reduceOption_cons_of_some, List.reduceOption_append]
    exact Scan.run_row hrow (side?_class as _) hlin (side?_class bs _) hrin _

/-- So is a page, and the scan gives the declarations of its rows. -/
theorem exists_pieces (h : Written rows doc) :
    ∃ es ts, List.Forall₂ Writes es ts ∧ doc = ts.flatten ∧ ∀ n,
      Scan.run {} ⟨.outside, [], [], n⟩ es.reduceOption =
        (rows.map fun r ↦ Initializer.declaration true r.1 r.2,
          ⟨.outside, [], [], n + rows.length⟩) := by
  induction h with
  | filler ht =>
    cases ht with
    | @mk es ts hes ho =>
      exact ⟨es, ts, hes, rfl, fun n ↦ Scan.run_outside rfl fun e he ↦ opens_eq_false (ho e he)⟩
  | @row left right t u rest rows ht hu _ ih =>
    obtain ⟨es, ts, hes, rfl, hrun⟩ := ih
    obtain ⟨rs, vs, hrs, rfl, hrow⟩ := exists_pieces_of_rowWritten hu
    cases ht with
    | @mk fs us hfs ho =>
      refine ⟨fs ++ rs ++ es, us ++ vs ++ ts, List.rel_append (List.rel_append hfs hrs) hes,
        by simp, fun n ↦ ?_⟩
      have hout := Scan.run_outside (o := {}) (s := ⟨.outside, [], [], n⟩) rfl
        fun e he ↦ opens_eq_false (ho e he)
      rw [List.reduceOption_append, List.reduceOption_append, Scan.run_append, Scan.run_append,
        hout, hrow, hrun]
      simp [Nat.add_right_comm, Nat.add_assoc]

theorem parse_of_written (h : Written rows doc) :
    parse {} doc =
      ⟨rows.map fun r ↦ Initializer.declaration true r.1 r.2, rows.length, false⟩ := by
  obtain ⟨es, ts, hes, rfl, hrun⟩ := exists_pieces h
  have hscan : Scan.run {} {} (events ts.flatten) =
      (rows.map fun r ↦ Initializer.declaration true r.1 r.2,
        ⟨.outside, [], [], 0 + rows.length⟩) := by
    rw [← List.nil_append ts.flatten, events_append_flatten .nil hes, Scan.run_joinFrom,
      Scan.run_text, Scan.addText_nil, hrun 0]
  rw [parse, ofEvents, hscan, Nat.zero_add]
  rfl

/-- Other rows may stand between member rows, and the text of a cell may look like markup. -/
theorem parse_of_written_table :
    parse {} ("<table><tr class=sep>".toList ++
      ("<tr class=\"memitem:a1\">".toList ++
        cellMarkup "memItemLeft".toList " align=\"right\"".toList "an <b>int</b>".toList ++
        cellMarkup "memItemRight".toList [] "A &lt;/tr&gt;".toList ++ "</tr>".toList) ++
      "<!-- end --></table>".toList) =
      ⟨[Initializer.declaration true "an int".toList "A </tr>".toList], 1, false⟩ := by
  have hnone : Tag.AttributesWritten [] [] :=
    @Tag.AttributesWritten.close [] [] [] rfl rfl (.inl rfl)
  have hsep : Tag.AttributesWritten [⟨"class".toList, "sep".toList⟩] " class=sep".toList :=
    @Tag.AttributesWritten.cons _ _ " ".toList _ _ (by decide) (by decide)
      (@Attribute.Written.unquoted "class".toList [] [] "sep".toList _ (by decide)
        rfl rfl (by decide) (List.all_eq_true.mp rfl) (.self (by decide))) hnone
  have halign : Tag.AttributesWritten [⟨"align".toList, "right".toList⟩]
      " align=\"right\"".toList :=
    @Tag.AttributesWritten.cons _ _ " ".toList _ _ (by decide) (by decide)
      (@Attribute.Written.quoted '"' "align".toList [] [] "right".toList _ (.inl rfl)
        (by decide) rfl rfl (.self (by decide))) hnone
  have hbefore : FillerWritten "<table><tr class=sep>".toList :=
    .mk (.cons (@Writes.startTag "table".toList _ _ (by decide) rfl hnone)
      (.cons (@Writes.startTag "tr".toList _ _ (by decide) rfl hsep) .nil))
      (by simp only [← opens_eq_true_iff]; decide)
  have hafter : FillerWritten "<!-- end --></table>".toList :=
    .mk (.cons (@Writes.comment " end ".toList (by decide))
      (.cons (@Writes.endTag "table".toList [] (by decide) rfl) .nil))
      (by simp only [← opens_eq_true_iff]; decide)
  have hleft : CellWritten "an int".toList "an <b>int</b>".toList :=
    .mk (.cons (.text (.self (s := "an ".toList) (by decide)))
      (.cons (@Writes.startTag "b".toList _ _ (by decide) rfl hnone)
        (.cons (.text (.self (s := "int".toList) (by decide)))
          (.cons (@Writes.endTag "b".toList [] (by decide) rfl) .nil))))
      (by decide)
  have hright : CellWritten "A </tr>".toList "A &lt;/tr&gt;".toList :=
    .mk (.cons (.text (.append (s := "A ".toList) (.self (by decide))
      (.reference (@Reference.Denotes.named "lt".toList _ rfl) (.append (s := "/tr".toList)
        (.self (by decide)) (.reference (@Reference.Denotes.named "gt".toList _ rfl) .nil)))))
      .nil)
      (by decide)
  exact parse_of_written (.row hbefore
    (.mk (.self (s := "a1".toList) (by decide)) halign hleft hnone hright) (.filler hafter))

end Typings.Page
