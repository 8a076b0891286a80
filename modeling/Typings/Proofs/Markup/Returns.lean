import Typings.Proofs.Markup.Raw
import Typings.Proofs.Text.Returns

/-!
# Line ends in markup

No construct of markup tells a carriage return from a line feed, so that documents which differ in
carriage returns at the ends of lines have the same events but for the same difference in texts and
in values of attributes (`events_of_returned`).
-/

namespace Typings.Markup

open Text

variable {c d quote : Char} {r s t r' : Text}

/-- What was read is the same up to `R`, in front of texts that differ at the ends of lines. -/
inductive SameRead {α : Type} (R : α → α → Prop) : Option (α × Text) → Option (α × Text) → Prop
  | none : SameRead R none none
  | some {a b : α} {s t : Text} : R a b → Returned s t → SameRead R (some (a, s)) (some (b, t))

theorem SameRead.bind_map {α β : Type} {x y : Option (α × Text)} (h : SameRead Eq x y)
    (f : α → Option β) :
    SameRead Eq (x.bind fun (a, rest) => (f a).map (·, rest))
      (y.bind fun (a, rest) => (f a).map (·, rest)) := by
  cases h with
  | none => exact .none
  | @some a _ _ _ ha h =>
    subst ha
    cases hf : f a with
    | none => simpa [hf] using .none
    | some b => simpa [hf] using .some rfl h

/-! ## References -/

namespace Reference

theorem sameRead_body? (p : Char → Bool) (hr : p '\r' = false) (hn : p '\n' = false)
    (h : Returned s t) : SameRead Eq (body? p s) (body? p t) := by
  have hrest := h.dropWhile (hr.trans hn.symm)
  rw [body?, body?, h.takeWhile_eq hr hn]
  generalize s.dropWhile p = u at hrest
  generalize t.dropWhile p = v at hrest
  cases hrest with
  | nil => exact .none
  | newline => exact .none
  | @cons _ _ c h =>
    by_cases hc : c = ';'
    · subst hc
      cases (s.takeWhile p).isEmpty with
      | true => exact .none
      | false => exact .some rfl h
    · split
      · next hcons => exact absurd (List.cons.inj hcons).1 hc
      · split
        · next hcons => exact absurd (List.cons.inj hcons).1 hc
        · exact .none

theorem sameRead_read? (h : Returned s t) : SameRead Eq (read? s) (read? t) := by
  cases h with
  | nil => exact .none
  | newline => exact .none
  | @cons s t c h =>
    by_cases hc : c = '#'
    · subst hc
      by_cases hx : ∃ r, s = 'x' :: r ∨ s = 'X' :: r
      · obtain ⟨r, rfl | rfl⟩ := hx
        · obtain ⟨r', rfl, hr⟩ := h.cons_of_ne (by decide)
          exact (sameRead_body? isHexDigit rfl rfl hr).bind_map (character? 16)
        · obtain ⟨r', rfl, hr⟩ := h.cons_of_ne (by decide)
          exact (sameRead_body? isHexDigit rfl rfl hr).bind_map (character? 16)
      · have hx' : ¬ ∃ r, t = 'x' :: r ∨ t = 'X' :: r := by
          rintro ⟨r', rfl | rfl⟩
          · obtain ⟨r, rfl, -⟩ := Returned.to_append ['x'] h (by decide)
            exact hx ⟨r, .inl rfl⟩
          · obtain ⟨r, rfl, -⟩ := Returned.to_append ['X'] h (by decide)
            exact hx ⟨r, .inr rfl⟩
        rw [read?_decimal hx, read?_decimal hx']
        exact (sameRead_body? Char.isDigit rfl rfl h).bind_map (character? 10)
    · by_cases hl : isLetter c = true
      · rw [read?_of_isLetter hl, read?_of_isLetter hl]
        exact (sameRead_body? Char.isAlphanum rfl rfl (h.cons c)).bind_map named?
      · rw [read?_of_not_isLetter hc hl, read?_of_not_isLetter hc hl]
        exact .none

/-- What references denote is as if it stood there, be it a line feed. -/
theorem returned_decode (h : Returned s t) : Returned (decode s) (decode t) := by
  fun_induction decode s generalizing t with
  | case1 =>
    rw [h.nil_iff.mpr rfl, decode]
    exact .nil
  | case2 r c rest hread ih =>
    obtain ⟨r', rfl, hr⟩ := h.cons_of_ne (by decide)
    have hsame := sameRead_read? hr
    rw [hread] at hsame
    generalize hread' : read? r' = x at hsame
    cases hsame with
    | some hc hrest =>
      subst hc
      rw [decode_of_read? hread']
      exact .cons c (ih hrest)
  | case3 r hread ih =>
    obtain ⟨r', rfl, hr⟩ := h.cons_of_ne (by decide)
    have hsame := sameRead_read? hr
    rw [hread] at hsame
    generalize hread' : read? r' = x at hsame
    cases hsame
    rw [decode_of_read?_eq_none hread']
    exact .cons '&' (ih hr)
  | case4 c r hc ih =>
    cases h with
    | cons _ h =>
      rw [decode_cons_of_ne hc]
      exact .cons c (ih h)
    | newline h =>
      rw [decode_cons_of_ne (by decide), decode_cons_of_ne (by decide)]
      exact .newline (ih h)

end Reference

/-! ## Tags -/

/-- The attributes have the same name, and values that differ at the ends of lines. -/
structure SameAttribute (a b : Attribute) : Prop where
  name : b.name = a.name
  value : Returned a.value b.value

namespace Tag

theorem name_eq_of_returned (h : Returned s t) : name t = name s := by
  rw [name, h.takeWhile_eq (by decide) (by decide), name]

theorem sameRead_quoted? (hr : quote ≠ '\r') (hn : quote ≠ '\n') (h : Returned s t) :
    SameRead Returned (quoted? quote s) (quoted? quote t) := by
  have hp : ('\r' != quote) = ('\n' != quote) := by
    rw [bne_iff_ne.mpr hr.symm, bne_iff_ne.mpr hn.symm]
  have hvalue := h.takeWhile (p := (· != quote)) hp
  have hrest := h.dropWhile (p := (· != quote)) hp
  have hstops := stops_dropWhile (· != quote) s
  rw [quoted?, quoted?]
  generalize s.dropWhile (· != quote) = u at hrest hstops
  generalize t.dropWhile (· != quote) = v at hrest
  cases hrest with
  | nil => exact .none
  | cons c h => exact .some hvalue h
  | newline => simp [hn.symm] at hstops

/-- What follows an equals sign and blanks. -/
theorem value?_of_equals (hs : trimStart s = '=' :: r) (hr : trimStart r = t)
    (hquote : t.head? ≠ some '"' ∧ t.head? ≠ some '\'') : value? s =
      if (t.takeWhile isUnquotedChar).isEmpty then none
      else some (t.takeWhile isUnquotedChar, t.dropWhile isUnquotedChar) := by
  rw [value?, hs]
  simp only [hr]
  split
  · simp at hquote
  · simp at hquote
  · rfl

theorem value?_of_quote (hq : quote = '"' ∨ quote = '\'') (hs : trimStart s = '=' :: r)
    (hr : trimStart r = quote :: t) : value? s = quoted? quote t := by
  rw [value?, hs]
  simp only [hr]
  rcases hq with rfl | rfl <;> rfl

/-- A run of characters outside quotes, which has no end of a line. -/
theorem sameRead_unquoted (h : Returned s t) : SameRead Returned
    (if (s.takeWhile isUnquotedChar).isEmpty then none
      else some (s.takeWhile isUnquotedChar, s.dropWhile isUnquotedChar))
    (if (t.takeWhile isUnquotedChar).isEmpty then none
      else some (t.takeWhile isUnquotedChar, t.dropWhile isUnquotedChar)) := by
  have hrun : Returned (s.takeWhile isUnquotedChar) (t.takeWhile isUnquotedChar) :=
    h.takeWhile (by decide)
  rw [h.takeWhile_eq (by decide) (by decide)] at hrun ⊢
  split
  · exact .none
  · exact .some hrun (h.dropWhile (by decide))

theorem sameRead_value?_of_equals (hs : trimStart s = '=' :: r) (ht : trimStart t = '=' :: r')
    (h : Returned r r') : SameRead Returned (value? s) (value? t) := by
  have hvalue := h.trimStart
  generalize hw : trimStart r = w at hvalue
  generalize hw' : trimStart r' = w' at hvalue
  by_cases hquote : w.head? = some '"' ∨ w.head? = some '\''
  · obtain ⟨quote, hq, q, rfl⟩ : ∃ quote, (quote = '"' ∨ quote = '\'') ∧ ∃ q, w = quote :: q := by
      rcases hquote with hquote | hquote
      · exact ⟨'"', .inl rfl, List.head?_eq_some_iff.mp hquote⟩
      · exact ⟨'\'', .inr rfl, List.head?_eq_some_iff.mp hquote⟩
    have hne : quote ≠ '\r' ∧ quote ≠ '\n' := by
      rcases hq with rfl | rfl <;> decide
    obtain ⟨q', rfl, hquoted⟩ := hvalue.cons_of_ne hne.2
    rw [value?_of_quote hq hs hw, value?_of_quote hq ht hw']
    exact sameRead_quoted? hne.1 hne.2 hquoted
  · have hquote' : ¬ (w'.head? = some '"' ∨ w'.head? = some '\'') := by
      rwa [hvalue.head?_eq_some_iff (by decide) (by decide),
        hvalue.head?_eq_some_iff (by decide) (by decide)]
    rw [value?_of_equals hs hw (not_or.mp hquote), value?_of_equals ht hw' (not_or.mp hquote')]
    exact sameRead_unquoted hvalue

theorem sameRead_value? (h : Returned s t) : SameRead Returned (value? s) (value? t) := by
  have hrest := h.trimStart
  by_cases hs : (trimStart s).head? = some '='
  · obtain ⟨r, hr⟩ := List.head?_eq_some_iff.mp hs
    rw [hr] at hrest
    obtain ⟨r', hr', h⟩ := hrest.cons_of_ne (by decide)
    exact sameRead_value?_of_equals hr hr' h
  · have ht : ¬ (trimStart t).head? = some '=' := by
      rwa [hrest.head?_eq_some_iff (by decide) (by decide)]
    rw [value?_eq_none hs, value?_eq_none ht]
    exact .none

/-- The first attribute begins at the same place. -/
theorem exists_dropWhile_eq (h : Returned s t)
    (hs : s.dropWhile (!isAttributeNameChar ·) = c :: r) :
    ∃ r', t.dropWhile (!isAttributeNameChar ·) = c :: r' ∧ Returned r r' := by
  have hrest := h.dropWhile (p := (!isAttributeNameChar ·)) (by decide)
  have hstops := stops_dropWhile (!isAttributeNameChar ·) s
  rw [hs] at hrest hstops
  refine hrest.cons_of_ne ?_
  rintro rfl
  cases stops_cons.mp hstops

theorem attributes_of_returned (h : Returned s t) :
    List.Forall₂ SameAttribute (attributes s) (attributes t) := by
  fun_induction attributes s generalizing t with
  | case1 s hs =>
    have hrest := h.dropWhile (p := (!isAttributeNameChar ·)) (by decide)
    have ht := hrest.nil_iff.mpr hs
    rw [attributes_eq_nil fun c hc ↦ by simpa using List.dropWhile_eq_nil_iff.mp ht c hc]
    exact .nil
  | case2 s c r hs label value rest hv =>
    rename_i ih
    obtain ⟨r', ht, hr⟩ := exists_dropWhile_eq h hs
    have hsame := sameRead_value? (hr.dropWhile (p := isAttributeNameChar) (by decide))
    rw [hv] at hsame
    rw [attributes_of_dropWhile ht, hr.takeWhile_eq (by decide) (by decide)]
    generalize value? (r'.dropWhile isAttributeNameChar) = x at hsame
    cases hsame with
    | some hvalue hrest => exact .cons ⟨rfl, Reference.returned_decode hvalue⟩ (ih hrest)
  | case3 s c r hs label hv =>
    rename_i ih
    obtain ⟨r', ht, hr⟩ := exists_dropWhile_eq h hs
    have hrest := hr.dropWhile (p := isAttributeNameChar) (by decide)
    have hsame := sameRead_value? hrest
    rw [hv] at hsame
    rw [attributes_of_dropWhile ht, hr.takeWhile_eq (by decide) (by decide)]
    generalize hx : value? (r'.dropWhile isAttributeNameChar) = x at hsame
    cases hsame
    exact .cons ⟨rfl, .nil⟩ (ih hrest)

end Tag

/-- The events are the same but for the ends of lines in texts and values. -/
inductive SameEvent : Event → Event → Prop
  | startTag (name : Text) {as bs : List Attribute} : List.Forall₂ SameAttribute as bs →
      SameEvent (.startTag name as) (.startTag name bs)
  | endTag (name : Text) : SameEvent (.endTag name) (.endTag name)
  | text {s t : Text} : Returned s t → SameEvent (.text s) (.text t)

theorem Tag.sameEvent_startEvent (h : Returned s t) : SameEvent (startEvent s) (startEvent t) := by
  rw [startEvent, startEvent, name_eq_of_returned h]
  exact .startTag _ (attributes_of_returned (h.dropWhile (by decide)))

theorem Tag.sameEvent_endEvent (h : Returned s t) : SameEvent (endEvent s) (endEvent t) := by
  rw [endEvent, endEvent, name_eq_of_returned h]
  exact .endTag _

/-! ## Tokens -/

/-- The tokens say the same but for the ends of lines. -/
inductive SameToken : Token → Token → Prop
  | silent {a b : Token} : a.event? = none → b.event? = none → SameToken a b
  | startTag {s t : Text} : Returned s t →
      SameToken ⟨.startTag, '<' :: (s ++ ['>'])⟩ ⟨.startTag, '<' :: (t ++ ['>'])⟩
  | endTag {s t : Text} : Returned s t →
      SameToken ⟨.endTag, '<' :: ('/' :: s ++ ['>'])⟩ ⟨.endTag, '<' :: ('/' :: t ++ ['>'])⟩
  | text {s t : Text} : Returned s t → SameToken ⟨.text, s⟩ ⟨.text, t⟩
  | rawText {s t : Text} : Returned s t → SameToken ⟨.rawText, s⟩ ⟨.rawText, t⟩

namespace SameToken

variable {a b : Token}

theorem events (h : SameToken a b) : List.Forall₂ SameEvent a.event?.toList b.event?.toList := by
  cases h with
  | silent ha hb =>
    rw [ha, hb]
    exact .nil
  | startTag h =>
    rw [Token.event?, Token.event?, Token.inner_startTag, Token.inner_startTag]
    exact .cons (Tag.sameEvent_startEvent h) .nil
  | endTag h =>
    rw [Token.event?, Token.event?, Token.inner_endTag, Token.inner_endTag]
    exact .cons (Tag.sameEvent_endEvent h) .nil
  | text h => exact .cons (.text (Reference.returned_decode h)) .nil
  | rawText h => exact .cons (.text h) .nil

theorem opensRaw?_eq (h : SameToken a b) : b.opensRaw? = a.opensRaw? := by
  have hsilent : ∀ {a : Token}, a.event? = none → a.opensRaw? = none := by
    rintro ⟨kind, source⟩ ha
    cases kind <;> first | rfl | cases ha
  cases h with
  | silent ha hb => rw [hsilent ha, hsilent hb]
  | startTag h =>
    rw [Token.opensRaw?, Token.opensRaw?, Token.inner_startTag, Token.inner_startTag,
      Tag.name_eq_of_returned h]
  | endTag => rfl
  | text => rfl
  | rawText => rfl

end SameToken

namespace Token

theorem returned_throughComment (h : Returned s t) :
    Returned (throughComment s).2 (throughComment t).2 := by
  have hcut := isCut_breakAt "-->".toList.isPrefixOf s
  have hrest := (h.breakAt fun h ↦ h.isPrefixOf_eq (w := "-->".toList) (by decide) (by decide)).2
  rw [throughComment, throughComment, breakOn, breakOn]
  rcases hcut.stops with hnil | hstop
  · have hnil' := hrest.nil_iff.mpr hnil
    simp only [hnil, hnil', List.drop_nil]
    exact .nil
  · exact hrest.drop (List.isPrefixOf_iff_prefix.mp hstop) (by decide)

theorem bracketed?_eq_of_returned (h : Returned s t) : bracketed? t = bracketed? s := by
  cases h with
  | nil => rfl
  | newline => rfl
  | @cons s t c h =>
    by_cases hc : c ∈ ['!', '/', '?']
    · simp only [List.mem_cons, List.not_mem_nil, or_false] at hc
      rcases hc with rfl | rfl | rfl <;> cases h <;> rfl
    · rw [bracketed?_cons hc, bracketed?_cons hc]

theorem afterBracket_of_bracket_notMem (h : "!--".toList.isPrefixOf r = false) (hr : '>' ∉ r) :
    afterBracket r = (⟨.text, ['<']⟩, r) := by
  have hthrough : throughBracket? r = none := by
    rw [throughBracket?, List.dropWhile_eq_nil_iff.mpr (bne_of_notMem hr)]
  rw [afterBracket, h, hthrough]
  cases bracketed? r <;> rfl

theorem afterBracket_of_bracketed?_eq_none (h : "!--".toList.isPrefixOf r = false)
    (hk : bracketed? r = none) : afterBracket r = (⟨.text, ['<']⟩, r) := by
  rw [afterBracket, h, hk]
  rfl

/-- The kinds of construct in brackets. The slash of an end tag comes first. -/
theorem cases_of_bracketed? {kind : Kind} (h : bracketed? r = some kind) :
    kind = .declaration ∨ kind = .instruction ∨ kind = .startTag ∨
      kind = .endTag ∧ ∃ s, r = '/' :: s := by
  unfold bracketed? at h
  split at h
  · split at h <;> cases h
    exact .inl rfl
  · split at h <;> cases h
    exact .inr (.inr (.inr ⟨rfl, _, rfl⟩))
  · cases h
    exact .inr (.inl rfl)
  · split at h <;> cases h
    exact .inr (.inr (.inl rfl))
  · cases h

/-- Constructs in brackets say the same. -/
theorem sameToken_bracketed {kind : Kind} (hk : bracketed? (s ++ '>' :: r) = some kind)
    (h : Returned s t) : SameToken ⟨kind, '<' :: (s ++ ['>'])⟩ ⟨kind, '<' :: (t ++ ['>'])⟩ := by
  rcases cases_of_bracketed? hk with rfl | rfl | rfl | ⟨rfl, u, hu⟩
  · exact .silent rfl rfl
  · exact .silent rfl rfl
  · exact .startTag h
  · cases s with
    | nil => cases hu
    | cons c s =>
      obtain rfl := (List.cons.inj hu).1
      obtain ⟨t, rfl, ht⟩ := h.cons_of_ne (by decide)
      exact .endTag ht

/-- What an opening bracket starts ends at the same place. -/
theorem sameToken_afterBracket (h : Returned s t) :
    SameToken (afterBracket s).1 (afterBracket t).1 ∧
      Returned (afterBracket s).2 (afterBracket t).2 := by
  have hprefix : "!--".toList.isPrefixOf t = "!--".toList.isPrefixOf s :=
    h.isPrefixOf_eq (by decide) (by decide)
  cases hcomment : "!--".toList.isPrefixOf s with
  | true =>
    rw [afterBracket, afterBracket, hprefix, hcomment]
    exact ⟨.silent rfl rfl,
      returned_throughComment (h.drop (List.isPrefixOf_iff_prefix.mp hcomment) (by decide))⟩
  | false =>
    rw [hcomment] at hprefix
    have hkind := bracketed?_eq_of_returned h
    have htext : SameToken ⟨.text, ['<']⟩ ⟨.text, ['<']⟩ := .text (.cons '<' .nil)
    by_cases hgt : '>' ∈ s
    · obtain ⟨u, rest, rfl, hu⟩ := List.eq_append_cons_of_mem hgt
      obtain ⟨u', v', rfl, hreturned, hv'⟩ := h.exists_append
      obtain ⟨rest', rfl, hrest⟩ := hv'.cons_of_ne (by decide)
      have hu' : '>' ∉ u' := by rwa [hreturned.mem_iff (by decide)]
      cases hk : bracketed? (u ++ '>' :: rest) with
      | none =>
        rw [afterBracket_of_bracketed?_eq_none hcomment hk,
          afterBracket_of_bracketed?_eq_none hprefix (hkind.trans hk)]
        exact ⟨htext, h⟩
      | some kind =>
        rw [afterBracket_of_bracketed? hk hu, afterBracket_of_bracketed? (hkind.trans hk) hu']
        exact ⟨sameToken_bracketed hk hreturned, hrest⟩
    · have hgt' : '>' ∉ t := by rwa [h.mem_iff (by decide)]
      rw [afterBracket_of_bracket_notMem hcomment hgt, afterBracket_of_bracket_notMem hprefix hgt']
      exact ⟨htext, h⟩

/-- The first token ends at the same place. -/
theorem sameToken_next (h : Returned (c :: r) (d :: r')) :
    SameToken (next c r).1 (next d r').1 ∧ Returned (next c r).2 (next d r').2 := by
  by_cases hc : c = '<'
  · subst hc
    cases h with
    | cons _ h => exact sameToken_afterBracket h
  · have hd : d ≠ '<' := by
      rintro rfl
      cases h
      exact hc rfl
    have htake := h.takeWhile (p := (· != '<')) rfl
    have hdrop := h.dropWhile (p := (· != '<')) rfl
    rw [List.takeWhile_cons_of_pos (by simpa using hc),
      List.takeWhile_cons_of_pos (by simpa using hd)] at htake
    rw [List.dropWhile_cons_of_pos (by simpa using hc),
      List.dropWhile_cons_of_pos (by simpa using hd)] at hdrop
    rw [next, if_neg (by simpa using hc), next, if_neg (by simpa using hd)]
    exact ⟨.text htake, hdrop⟩

/-- An end tag of such an element has no ends of lines. -/
theorem closesRaw_eq_of_returned {name : Text} (hname : isRawElement name = true)
    (h : Returned s t) : closesRaw name t = closesRaw name s := by
  have hplain : ∀ {w : Text} {c : Char}, eqIgnoringCase w name = true → c.toLower = c →
      c ∉ name → c ∉ "</".toList → c ∉ "</".toList ++ w := by
    intro w c hw hlower hc hopen hmem
    rcases List.mem_append.mp hmem with hmem | hmem
    · exact hopen hmem
    · have hmem' : c ∈ toLower w := List.mem_map.mpr ⟨c, hmem, hlower⟩
      rw [eq_of_beq hw, toLower_of_isRawElement hname] at hmem'
      exact hc hmem'
  have hends : '\r' ∉ name ∧ '\n' ∉ name := by
    rcases eq_script_or_eq_style hname with rfl | rfl <;> decide
  rw [Bool.eq_iff_iff, closesRaw_iff, closesRaw_iff]
  constructor
  · rintro ⟨w, rest, rfl, hw⟩
    obtain ⟨rest', rfl, -⟩ := Returned.to_append _ h (hplain hw rfl hends.1 (by decide))
    exact ⟨w, rest', rfl, hw⟩
  · rintro ⟨w, rest, rfl, hw⟩
    obtain ⟨rest', rfl, -⟩ := Returned.of_append _ h (hplain hw rfl hends.2 (by decide))
    exact ⟨w, rest', rfl, hw⟩

theorem sameEvents_rawBody {name : Text} (hname : isRawElement name = true) (h : Returned s t) :
    List.Forall₂ SameEvent ((rawBody name s).1.filterMap event?)
        ((rawBody name t).1.filterMap event?) ∧
      Returned (rawBody name s).2 (rawBody name t).2 := by
  obtain ⟨hbody, hrest⟩ := h.breakAt (closesRaw_eq_of_returned hname)
  refine ⟨?_, hrest⟩
  simp only [rawBody]
  generalize (breakAt (closesRaw name) s).1 = u at hbody
  generalize (breakAt (closesRaw name) t).1 = v at hbody
  cases hbody with
  | nil => exact .nil
  | cons c h => exact .cons (.text (h.cons c)) .nil
  | newline h => exact .cons (.text h.newline) .nil

end Token

theorem events_cons_of_raw {name : Text} (h : (Token.next c r).1.opensRaw? = some name) :
    events (c :: r) = (Token.next c r).1.event?.toList ++
      ((Token.rawBody name (Token.next c r).2).1.filterMap Token.event? ++
        events (Token.rawBody name (Token.next c r).2).2) := by
  rw [events, Token.tokens_of_raw h]
  cases he : (Token.next c r).1.event? <;> simp [events, he]

/-- Documents that differ at the ends of lines have the same events, but for that. -/
theorem events_of_returned (h : Returned s t) : List.Forall₂ SameEvent (events s) (events t) := by
  induction hn : s.length using Nat.strong_induction_on generalizing s t with
  | _ n ih =>
    cases s with
    | nil =>
      rw [h.nil_iff.mpr rfl, events_nil]
      exact .nil
    | cons c r =>
      obtain ⟨d, r', rfl⟩ := List.exists_cons_of_ne_nil (mt h.nil_iff.mp (List.cons_ne_nil c r))
      obtain ⟨htoken, hrest⟩ := Token.sameToken_next h
      have hshorter := Token.length_next_lt c r
      rw [hn] at hshorter
      cases hraw : (Token.next c r).1.opensRaw? with
      | none =>
        rw [events_cons hraw, events_cons (htoken.opensRaw?_eq.trans hraw)]
        exact List.rel_append htoken.events (ih _ hshorter hrest rfl)
      | some name =>
        obtain ⟨hbody, hbehind⟩ :=
          Token.sameEvents_rawBody (Token.isRawElement_of_opensRaw? hraw) hrest
        have hshorter' := (Token.length_rawBody_le name (Token.next c r).2).trans_lt hshorter
        rw [events_cons_of_raw hraw, events_cons_of_raw (htoken.opensRaw?_eq.trans hraw)]
        exact List.rel_append htoken.events (List.rel_append hbody (ih _ hshorter' hbehind rfl))

end Typings.Markup
