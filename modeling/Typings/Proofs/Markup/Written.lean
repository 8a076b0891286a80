import Mathlib.Data.List.Chain
import Mathlib.Data.List.Forall2
import Mathlib.Data.List.ReduceOption
import Typings.Proofs.Markup.Tag
import Typings.Proofs.Markup.Token

/-!
# Documents written piece by piece

`Writes` says how an event may be written, and what may be written that says nothing.  A document
made of such pieces is read back (`events_of_written`): every piece gives its event, whatever stands
around it, except that texts that touch are one text.
-/

namespace Typings.Markup

open Text

variable {e : Option Event} {es : List (Option Event)} {p q s t rest : Text} {ts : List Text}

/-! ## Descriptions -/

/-- The text writes the event, or nothing that gives an event. -/
inductive Writes : Option Event → Text → Prop
  | text {s t : Text} : Reference.Encodes ['<', '>'] s t → Writes (some (.text s)) t
  | startTag {w t : Text} {as : List Attribute} : Tag.IsName w →
    Token.isRawElement (toLower w) = false → Tag.AttributesWritten as t →
      Writes (some (.startTag (toLower w) as)) ("<".toList ++ w ++ t ++ ">".toList)
  | endTag {w blank : Text} : Tag.IsName w → isBlankText blank = true →
      Writes (some (.endTag (toLower w))) ("</".toList ++ w ++ blank ++ ">".toList)
  | comment {body : Text} : ¬ "-->".toList <:+: body →
      Writes none ("<!--".toList ++ body ++ "-->".toList)
  | declaration {c : Char} {body : Text} : isLetter c = true → '>' ∉ body →
      Writes none ("<!".toList ++ c :: body ++ ">".toList)
  | instruction {body : Text} : '>' ∉ body → Writes none ("<?".toList ++ body ++ ">".toList)

/-- A piece is text. -/
def IsText (e : Option Event) : Prop := ∃ s, e = some (.text s)

/-- The event for some text, unless there is none. -/
def textEvents (s : Text) : List Event := if s = [] then [] else [.text s]

/-- The events of pieces behind the text `p`, where texts that touch are one text. -/
def joinFrom (p : Text) : List (Option Event) → List Event
  | [] => textEvents p
  | some (.text s) :: es => joinFrom (p ++ s) es
  | e :: es => textEvents p ++ e.toList ++ joinFrom [] es

/-- The events of pieces, where texts that touch are one text. -/
def join (es : List (Option Event)) : List Event := joinFrom [] es

/-! ## Joining texts -/

@[simp] theorem textEvents_nil : textEvents [] = [] := rfl

theorem textEvents_of_ne_nil (h : s ≠ []) : textEvents s = [.text s] := if_neg h

theorem joinFrom_cons (h : ¬ IsText e) (p : Text) (es : List (Option Event)) :
    joinFrom p (e :: es) = textEvents p ++ e.toList ++ joinFrom [] es :=
  joinFrom.eq_3 p e es fun s e' ↦ h ⟨s, e'⟩

/-- Where no texts touch, and none is empty, each piece gives its own event. -/
theorem joinFrom_eq (hne : some (.text []) ∉ es)
    (hc : es.IsChain fun e e' ↦ ¬ (IsText e ∧ IsText e'))
    (hp : p = [] ∨ ∀ e ∈ es.head?, ¬ IsText e) :
    joinFrom p es = textEvents p ++ es.reduceOption := by
  induction es generalizing p with
  | nil => simp [joinFrom]
  | cons e es ih =>
    rw [List.mem_cons, not_or] at hne
    rw [List.isChain_cons] at hc
    by_cases he : IsText e
    · obtain ⟨s, rfl⟩ := he
      have hs : s ≠ [] := by
        rintro rfl
        exact hne.1 rfl
      obtain rfl : p = [] := hp.resolve_right fun h ↦ h _ rfl ⟨s, rfl⟩
      have hhead : ∀ e ∈ es.head?, ¬ IsText e := fun e he h ↦ hc.1 e he ⟨⟨s, rfl⟩, h⟩
      rw [joinFrom, List.nil_append, ih hne.2 hc.2 (.inr hhead), textEvents_of_ne_nil hs]
      rfl
    · rw [joinFrom_cons he, ih hne.2 hc.2 (.inl rfl)]
      cases e <;> simp [List.reduceOption_cons_of_some]

/-! ## Reading the pieces -/

theorem events_encodes_append (h : Reference.Encodes ['<', '>'] s t)
    (hr : Stops (· != '<') rest) : events (t ++ rest) = textEvents s ++ events rest := by
  by_cases hs : s = []
  · subst hs
    cases h
    rfl
  · rw [events_text (Reference.ne_nil_of_encodes h hs)
      (Reference.notMem_of_encodes h (by simp) (by decide)) hr, Reference.decode_encodes h,
      textEvents_of_ne_nil hs]
    rfl

/-- All pieces but texts start with an opening bracket. -/
theorem stops_of_writes (h : Writes e t) (he : ¬ IsText e) (rest : Text) :
    Stops (· != '<') (t ++ rest) := by
  cases h with
  | text => exact absurd ⟨_, rfl⟩ he
  | startTag => exact stops_cons.mpr rfl
  | endTag => exact stops_cons.mpr rfl
  | comment => exact stops_cons.mpr rfl
  | declaration => exact stops_cons.mpr rfl
  | instruction => exact stops_cons.mpr rfl

/-- A start tag goes up to the first closing bracket, and its attributes are those of what stands in
front of that bracket. -/
theorem events_startTag {w : Text} (hw : Tag.IsName w)
    (hraw : Token.isRawElement (toLower w) = false) (hs : Stops Tag.isNameChar t) (ht : '>' ∉ t)
    (rest : Text) : events ("<".toList ++ w ++ t ++ ">".toList ++ rest) =
      .startTag (toLower w) (Tag.attributes t) :: events rest := by
  have hn : '>' ∉ w ++ t := by
    rw [List.mem_append, not_or]
    exact ⟨fun h ↦ (hw.2 _ h).2 rfl, ht⟩
  have hk : Token.bracketed? ((w ++ t) ++ '>' :: rest) = some .startTag := by
    cases w with
    | nil => cases hw.1
    | cons c w => exact Token.bracketed?_of_isLetter (by simpa using hw.1)
  have hname : Tag.name (w ++ t) = toLower w := Tag.name_append hw hs
  have e : "<".toList ++ w ++ t ++ ">".toList ++ rest = '<' :: ((w ++ t) ++ '>' :: rest) := by simp
  rw [e, events_bracketed hk hn]
  · rw [Token.event?, Token.inner_startTag, Tag.startEvent, hname,
      dropWhile_append_of_stops (fun c hc ↦ (hw.2 c hc).1) hs]
    rfl
  · rw [Token.opensRaw?, Token.inner_startTag, hname, hraw]
    rfl

theorem events_startTag_append {w : Text} {as : List Attribute} (hw : Tag.IsName w)
    (hraw : Token.isRawElement (toLower w) = false) (ht : Tag.AttributesWritten as t)
    (rest : Text) : events ("<".toList ++ w ++ t ++ ">".toList ++ rest) =
      .startTag (toLower w) as :: events rest := by
  rw [events_startTag hw hraw (Tag.stops_of_attributesWritten Tag.isNameChar_of_isBlank ht)
    (Tag.bracket_notMem_of_attributesWritten ht), Tag.attributes_of_written ht]

theorem events_endTag_append {w blank : Text} (hw : Tag.IsName w)
    (hb : isBlankText blank = true) (rest : Text) :
    events ("</".toList ++ w ++ blank ++ ">".toList ++ rest) =
      .endTag (toLower w) :: events rest := by
  have hn : '>' ∉ '/' :: (w ++ blank) := by
    rw [List.mem_cons, List.mem_append, not_or, not_or]
    exact ⟨by decide, fun h ↦ (hw.2 _ h).2 rfl, Tag.bracket_notMem_of_isBlankText hb⟩
  have hk : Token.bracketed? ('/' :: (w ++ blank) ++ '>' :: rest) = some .endTag := by
    cases w with
    | nil => cases hw.1
    | cons c w => exact if_pos (by simpa using hw.1)
  have e : "</".toList ++ w ++ blank ++ ">".toList ++ rest =
      '<' :: ('/' :: (w ++ blank) ++ '>' :: rest) := by simp
  rw [e, events_bracketed hk hn rfl, Token.event?, Token.inner_endTag, Tag.endEvent_of_blank hw hb]
  rfl

theorem events_declaration_append {c : Char} {body : Text} (hc : isLetter c = true)
    (hb : '>' ∉ body) (rest : Text) :
    events ("<!".toList ++ c :: body ++ ">".toList ++ rest) = events rest := by
  have hn : '>' ∉ '!' :: c :: body := by
    rw [List.mem_cons, List.mem_cons, not_or, not_or]
    refine ⟨by decide, ?_, hb⟩
    rintro rfl
    cases hc
  have hk : Token.bracketed? ('!' :: c :: body ++ '>' :: rest) = some .declaration :=
    if_pos (by simp [hc])
  have e : "<!".toList ++ c :: body ++ ">".toList ++ rest =
      '<' :: ('!' :: c :: body ++ '>' :: rest) := by simp
  rw [e, events_bracketed hk hn rfl]
  rfl

theorem events_instruction_append {body : Text} (hb : '>' ∉ body) (rest : Text) :
    events ("<?".toList ++ body ++ ">".toList ++ rest) = events rest := by
  have hn : '>' ∉ '?' :: body := by
    rw [List.mem_cons, not_or]
    exact ⟨by decide, hb⟩
  have e : "<?".toList ++ body ++ ">".toList ++ rest = '<' :: ('?' :: body ++ '>' :: rest) := by
    simp
  rw [e, events_bracketed rfl hn rfl]
  rfl

/-- A piece that is not text gives its event, and what follows it is left. -/
theorem events_writes_append (h : Writes e t) (he : ¬ IsText e) (rest : Text) :
    events (t ++ rest) = e.toList ++ events rest := by
  cases h with
  | text => exact absurd ⟨_, rfl⟩ he
  | startTag hw hraw ht => exact events_startTag_append hw hraw ht rest
  | endTag hw hb => exact events_endTag_append hw hb rest
  | comment hc => exact events_comment hc rest
  | declaration hc hb => exact events_declaration_append hc hb rest
  | instruction hb => exact events_instruction_append hb rest

/-- Behind a text written as `q` the pieces are read one by one.  By induction on the pieces: a text
goes into `q`, and any other piece ends it. -/
theorem events_append_flatten (hq : Reference.Encodes ['<', '>'] p q)
    (h : List.Forall₂ Writes es ts) : events (q ++ ts.flatten) = joinFrom p es := by
  induction h generalizing p q with
  | nil =>
    rw [List.flatten_nil, events_encodes_append hq stops_nil, events_nil, List.append_nil]
    rfl
  | @cons e t es ts he _ ih =>
    rw [List.flatten_cons]
    by_cases ht : IsText e
    · obtain ⟨s, rfl⟩ := ht
      cases he with
      | text hs =>
        rw [← List.append_assoc, ih (hq.append hs)]
        rfl
    · rw [events_encodes_append hq (stops_of_writes he ht _), events_writes_append he ht,
        joinFrom_cons ht, ← ih .nil, List.append_assoc]
      rfl

/-- A document is read back from its pieces, and each piece gives its own event if no texts touch
and none is empty. -/
theorem events_of_written (h : List.Forall₂ Writes es ts) :
    events ts.flatten = join es ∧
      (some (.text []) ∉ es → (es.IsChain fun e e' ↦ ¬ (IsText e ∧ IsText e')) →
        events ts.flatten = es.reduceOption) := by
  have hjoin : events ts.flatten = join es := events_append_flatten .nil h
  refine ⟨hjoin, fun hne hc ↦ ?_⟩
  rw [hjoin, join, joinFrom_eq hne hc (.inl rfl), textEvents_nil, List.nil_append]

theorem events_of_written_cell :
    events "<Td CLASS = \"a&amp;b\" n=1 OPEN />x &lt; 1<!-- c -->y<?p?></TD >".toList =
      [.startTag "td".toList [⟨"class".toList, "a&b".toList⟩, ⟨"n".toList, "1".toList⟩,
        ⟨"open".toList, []⟩], .text "x < 1".toList, .text "y".toList, .endTag "td".toList] := by
  have hvalue : Reference.Encodes ['<', '>', '"'] "a&b".toList "a&amp;b".toList :=
    .plain (by decide) (by decide)
      (.reference (@Reference.Denotes.named "amp".toList _ rfl) (.self (by decide)))
  have hclass : Attribute.Written ⟨"class".toList, "a&b".toList⟩ "CLASS = \"a&amp;b\"".toList :=
    @Attribute.Written.quoted '"' "CLASS".toList " ".toList " ".toList _ _ (.inl rfl)
      (by decide) (by decide) (by decide) hvalue
  have hn : Attribute.Written ⟨"n".toList, "1".toList⟩ "n=1".toList :=
    @Attribute.Written.unquoted "n".toList [] [] "1".toList _ (by decide) rfl rfl
      (by decide) (List.all_eq_true.mp rfl) (.self (by decide))
  have hopen : Attribute.Written ⟨"open".toList, []⟩ "OPEN".toList :=
    @Attribute.Written.bare "OPEN".toList (by decide)
  have hclose : Tag.AttributesWritten [] " /".toList :=
    @Tag.AttributesWritten.close " ".toList "/".toList [] (by decide) rfl (.inr ⟨rfl, by decide⟩)
  have hattributes : Tag.AttributesWritten [⟨"class".toList, "a&b".toList⟩,
      ⟨"n".toList, "1".toList⟩, ⟨"open".toList, []⟩] " CLASS = \"a&amp;b\" n=1 OPEN /".toList :=
    @Tag.AttributesWritten.cons _ _ " ".toList _ _ (by decide) (by decide) hclass
      (@Tag.AttributesWritten.cons _ _ " ".toList _ _ (by decide) (by decide) hn
        (@Tag.AttributesWritten.cons _ _ " ".toList _ _ (by decide) (by decide) hopen hclose))
  have htext : Reference.Encodes ['<', '>'] "x < 1".toList "x &lt; 1".toList :=
    .append (s := "x ".toList) (.self (by decide))
      (.reference (@Reference.Denotes.named "lt".toList _ rfl)
        (.self (s := " 1".toList) (by decide)))
  have h := events_of_written
    (.cons (@Writes.startTag "Td".toList _ _ (by decide) rfl hattributes)
      (.cons (.text htext) (.cons (@Writes.comment " c ".toList (by decide))
        (.cons (.text (.self (s := "y".toList) (by decide)))
          (.cons (@Writes.instruction "p?".toList (by decide))
            (.cons (@Writes.endTag "TD".toList " ".toList (by decide) (by decide)) .nil))))))
  exact h.2 (by decide) (by simp [IsText])

end Typings.Markup
