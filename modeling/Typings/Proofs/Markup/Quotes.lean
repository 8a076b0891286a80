import Typings.Proofs.Markup.Written

/-!
# Brackets between quotes

Attributes with their values between quotes are read as they are, whatever brackets the values hold
(`attributes_of_quoted`).  A tag goes up to the first closing bracket though, and quotes do not hide
one.  So a tag with such attributes is read back if, and only if, no value holds a closing bracket
(`events_quoted_iff`).
-/

namespace Typings.Markup

open Text

/-- The text gives attributes, each behind blanks and with its value between quotes of either kind,
as it is. -/
inductive Tag.AttributesQuoted : List Attribute → Text → Prop
  | nil {blank : Text} : isBlankText blank = true → AttributesQuoted [] blank
  | cons {as : List Attribute} {blank w value rest : Text} {quote : Char} :
    isBlankText blank = true → blank ≠ [] → Attribute.IsName w → quote = '"' ∨ quote = '\'' →
    quote ∉ value → '&' ∉ value → AttributesQuoted as rest →
      AttributesQuoted (⟨toLower w, value⟩ :: as)
        (blank ++ w ++ '=' :: quote :: (value ++ quote :: rest))

namespace Tag

variable {quote : Char} {s w t value blank rest : Text} {as : List Attribute}

/-! ## One attribute -/

theorem stops_equals_cons (s : Text) : Stops isAttributeNameChar ('=' :: s) := stops_cons.mpr rfl

theorem value?_equals_quote (hq : quote = '"' ∨ quote = '\'') (s : Text) :
    value? ('=' :: quote :: s) = quoted? quote s := by
  rcases hq with rfl | rfl
  · rfl
  · rfl

theorem attributes_quoted_append (hb : isBlankText blank = true) (hw : Attribute.IsName w)
    (hq : quote = '"' ∨ quote = '\'') (hv : quote ∉ value) (ha : '&' ∉ value) (rest : Text) :
    attributes (blank ++ w ++ '=' :: quote :: (value ++ quote :: rest)) =
      ⟨toLower w, value⟩ :: attributes rest := by
  have hplain : Reference.IsPlain [] value := fun c hc ↦ ⟨fun e ↦ ha (e ▸ hc), by simp⟩
  have hdecode : Reference.decode value = value :=
    Reference.decode_encodes (.self hplain)
  rw [attributes_of_name hb hw (stops_equals_cons _), value?_equals_quote hq, quoted?_append hv]
  simp only [hdecode]

/-- Without the closing quote the value is lost, and what there is of it is read as attributes. -/
theorem attributes_unclosed (hb : isBlankText blank = true) (hw : Attribute.IsName w)
    (hq : quote = '"' ∨ quote = '\'') (hv : quote ∉ value) :
    attributes (blank ++ w ++ '=' :: quote :: value) =
      ⟨toLower w, []⟩ :: attributes ('=' :: quote :: value) := by
  have hquoted : quoted? quote value = none := by
    rw [quoted?, List.dropWhile_eq_nil_iff.mpr (bne_of_notMem hv)]
  rw [attributes_of_name hb hw (stops_equals_cons _), value?_equals_quote hq, hquoted]

/-! ## All attributes -/

theorem stops_of_attributesQuoted (h : AttributesQuoted as t) : Stops isNameChar t := by
  cases h with
  | nil hb => simpa using stops_blank_append isNameChar_of_isBlank hb stops_nil
  | cons hb hne =>
    rw [List.append_assoc]
    exact stops_blank_append_of_ne_nil isNameChar_of_isBlank hb hne _

theorem attributes_of_quoted (h : AttributesQuoted as t) : attributes t = as := by
  induction h with
  | nil hb =>
    exact attributes_eq_nil fun c hc ↦
      isAttributeNameChar_of_isBlank (isBlankText_iff.mp hb c hc)
  | cons hb _ hw hq hv ha _ ih => rw [attributes_quoted_append hb hw hq hv ha, ih]

theorem ne_bracket_of_quote (hq : quote = '"' ∨ quote = '\'') : '>' ≠ quote := by
  rcases hq with rfl | rfl <;> decide

/-- Only values hold closing brackets. -/
theorem bracket_notMem_of_attributesQuoted (h : AttributesQuoted as t)
    (has : ∀ a ∈ as, '>' ∉ a.value) : '>' ∉ t := by
  induction h with
  | nil hb => exact bracket_notMem_of_isBlankText hb
  | cons hb _ hw hq _ _ _ ih =>
    rw [List.forall_mem_cons] at has
    simp [bracket_notMem_of_isBlankText hb, bracket_notMem_of_isName hw, ne_bracket_of_quote hq,
      has.1, ih has.2]

/-- In front of the first closing bracket are attributes as they were given, and then one that has
lost its value. -/
theorem exists_attributes_of_bracket (h : AttributesQuoted as t)
    (has : ¬ ∀ a ∈ as, '>' ∉ a.value) :
    ∃ front back before a behind as', t = front ++ '>' :: back ∧ '>' ∉ front ∧
      Stops isNameChar front ∧ as = before ++ a :: behind ∧ '>' ∈ a.value ∧
      attributes front = before ++ ⟨a.name, []⟩ :: as' := by
  induction h with
  | nil => simp at has
  | @cons as blank w value rest quote hb hne hw hq hv ha hr ih =>
    have hstops : ∀ s, Stops isNameChar (blank ++ w ++ s) := fun s ↦ by
      rw [List.append_assoc]
      exact stops_blank_append_of_ne_nil isNameChar_of_isBlank hb hne _
    have hblank := bracket_notMem_of_isBlankText hb
    have hname := bracket_notMem_of_isName hw
    have hquote := ne_bracket_of_quote hq
    by_cases hvalue : '>' ∈ value
    · obtain ⟨front, back, rfl, hfront⟩ := List.eq_append_cons_of_mem hvalue
      have hv' : quote ∉ front := fun hm ↦ hv (List.mem_append_left _ hm)
      exact ⟨blank ++ w ++ '=' :: quote :: front, back ++ quote :: rest, [], _, as, _, by simp,
        by simp [hblank, hname, hquote, hfront], hstops _, rfl, hvalue,
        attributes_unclosed hb hw hq hv'⟩
    · have has' : ¬ ∀ a ∈ as, '>' ∉ a.value := fun h ↦ has (List.forall_mem_cons.mpr ⟨hvalue, h⟩)
      obtain ⟨front, back, before, a, behind, as', rfl, hfront, -, rfl, ha', hread⟩ := ih has'
      refine ⟨blank ++ w ++ '=' :: quote :: (value ++ quote :: front), back,
        ⟨toLower w, value⟩ :: before, a, behind, as', by simp,
        by simp [hblank, hname, hquote, hvalue, hfront], hstops _, rfl, ha', ?_⟩
      rw [attributes_quoted_append hb hw hq hv ha, hread]
      rfl

end Tag

variable {w t : Text} {as : List Attribute}

/-- A start tag with its values between quotes is read back, and what follows it is left, exactly if
no value holds a closing bracket. -/
theorem events_quoted_iff (hw : Tag.IsName w) (hraw : Token.isRawElement (toLower w) = false)
    (h : Tag.AttributesQuoted as t) (rest : Text) :
    events ("<".toList ++ w ++ t ++ ">".toList ++ rest) =
        .startTag (toLower w) as :: events rest ↔
      ∀ a ∈ as, '>' ∉ a.value := by
  constructor
  · intro hevents
    by_contra has
    obtain ⟨front, back, before, a, behind, as', rfl, hfront, hstops, rfl, ha, hread⟩ :=
      Tag.exists_attributes_of_bracket h has
    have e : "<".toList ++ w ++ (front ++ '>' :: back) ++ ">".toList ++ rest =
        "<".toList ++ w ++ front ++ ">".toList ++ (back ++ '>' :: rest) := by simp
    rw [e, events_startTag hw hraw hstops hfront, hread] at hevents
    have hcut : before ++ ⟨a.name, []⟩ :: as' = before ++ a :: behind :=
      (Event.startTag.inj (List.cons.inj hevents).1).2
    have hattribute : ⟨a.name, []⟩ = a := (List.cons.inj (List.append_cancel_left hcut)).1
    rw [← hattribute] at ha
    cases ha
  · intro has
    rw [events_startTag hw hraw (Tag.stops_of_attributesQuoted h)
      (Tag.bracket_notMem_of_attributesQuoted h has), Tag.attributes_of_quoted h]

/-- An opening bracket does no harm, and a quote of the other kind neither. -/
theorem events_quoted_cell :
    events "<Td CLASS=\"a<b\" n='\"1\"'>x".toList = [.startTag "td".toList
      [⟨"class".toList, "a<b".toList⟩, ⟨"n".toList, "\"1\"".toList⟩], .text "x".toList] := by
  have hn : Tag.AttributesQuoted [⟨"n".toList, "\"1\"".toList⟩] " n='\"1\"'".toList :=
    @Tag.AttributesQuoted.cons [] " ".toList "n".toList "\"1\"".toList [] '\'' rfl (by decide)
      (by decide) (.inr rfl) (by decide) (by decide) (.nil rfl)
  have has : Tag.AttributesQuoted
      [⟨"class".toList, "a<b".toList⟩, ⟨"n".toList, "\"1\"".toList⟩]
      " CLASS=\"a<b\" n='\"1\"'".toList :=
    @Tag.AttributesQuoted.cons _ " ".toList "CLASS".toList "a<b".toList _ '"' rfl (by decide)
      (by decide) (.inl rfl) (by decide) (by decide) hn
  have hevents := (events_quoted_iff (w := "Td".toList) (by decide) rfl has "x".toList).mpr
    (by decide)
  exact hevents.trans (by decide +kernel)

-- The tag ends between the quotes, and the rest of the value is text.
theorem exists_events_quoted_ne :
    ¬ ∀ (w t rest : Text) (as : List Attribute), Tag.IsName w →
      Token.isRawElement (toLower w) = false → Tag.AttributesQuoted as t →
        events ("<".toList ++ w ++ t ++ ">".toList ++ rest) =
          .startTag (toLower w) as :: events rest := by
  intro hall
  have hb : Tag.AttributesQuoted [⟨"b".toList, "x>y".toList⟩] " b=\"x>y\"".toList :=
    @Tag.AttributesQuoted.cons [] " ".toList "b".toList "x>y".toList [] '"' rfl (by decide)
      (by decide) (.inl rfl) (by decide) (by decide) (.nil rfl)
  have hevents := hall "a".toList _ [] _ (by decide) rfl hb
  revert hevents
  decide +kernel

end Typings.Markup
