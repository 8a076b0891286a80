import Typings.Proofs.Markup.Token

/-!
# Documents that are put together

A text is closed if a tag behind it is read as that tag.  Whatever markup follows a closed text, its
first token ends at the same place, and what is behind that token is closed again
(`IsClosed.exists_begins`).  So a closed text is read as by itself (`IsClosed.events_append`).
-/

namespace Typings

open Text

variable {a b r s t name : Text}

/-! ## Markup behind a text -/

namespace Text

variable {p : Char → Bool} {stop : Text → Bool}

theorem takeWhile_append_stops (hb : Stops p b) (s : Text) :
    (s ++ b).takeWhile p = s.takeWhile p := by
  conv_lhs => rw [← List.takeWhile_append_dropWhile (p := p) (l := s), List.append_assoc]
  refine takeWhile_append_of_stops (List.all_eq_true.mp List.all_takeWhile) ?_
  have hs := stops_dropWhile p s
  cases h : s.dropWhile p with
  | nil => exact hb
  | cons c s' =>
    rw [h] at hs
    exact hs

theorem dropWhile_append_stops (hb : Stops p b) (s : Text) :
    (s ++ b).dropWhile p = s.dropWhile p ++ b := by
  have h : s.takeWhile p ++ (s ++ b).dropWhile p = s.takeWhile p ++ (s.dropWhile p ++ b) := by
    conv_lhs => rw [← takeWhile_append_stops hb, List.takeWhile_append_dropWhile]
    rw [← List.append_assoc, List.takeWhile_append_dropWhile]
  exact List.append_cancel_left h

theorem eq_nil_or_bracket_of_stops (hb : Stops (· != '<') b) : b = [] ∨ ∃ b', b = '<' :: b' := by
  cases b with
  | nil => exact .inl rfl
  | cons c b' =>
    obtain rfl : c = '<' := by simpa using hb
    exact .inr ⟨b', rfl⟩

/-- A pattern without an opening bracket does not reach over one. -/
theorem isPrefixOf_append {pattern : Text} (hp : '<' ∉ pattern) (hb : Stops (· != '<') b)
    (s : Text) : pattern.isPrefixOf (s ++ b) = pattern.isPrefixOf s := by
  induction pattern generalizing s with
  | nil => rw [List.isPrefixOf_nil_left, List.isPrefixOf_nil_left]
  | cons x pattern ih =>
    rw [List.mem_cons, not_or] at hp
    cases s with
    | cons y s => rw [List.cons_append, List.isPrefixOf, List.isPrefixOf, ih hp.2]
    | nil =>
      rcases eq_nil_or_bracket_of_stops hb with rfl | ⟨b', rfl⟩
      · rfl
      · have hx : (x == '<') = false := beq_eq_false_iff_ne.mpr fun e ↦ hp.1 e.symm
        rw [List.nil_append, List.isPrefixOf_cons_cons, hx, Bool.false_and]
        rfl

/-- A text is cut at the same place if nothing behind it can bear on that. -/
theorem breakAt_append_of_cut (hb : ∀ v, v ≠ [] → stop (v ++ b) = stop v)
    (h : (breakAt stop s).2 ≠ []) :
    breakAt stop (s ++ b) = ((breakAt stop s).1, (breakAt stop s).2 ++ b) := by
  have hs := isCut_breakAt stop s
  have hcut : IsCut stop (breakAt stop s).1 ((breakAt stop s).2 ++ b) := by
    refine ⟨.inr ((hb _ h).trans (hs.stops.resolve_left h)), fun v hv hsuffix ↦ ?_⟩
    rw [← List.append_assoc, hb _ (by simp [hv])]
    exact hs.goesOn v hv hsuffix
  have hbreak := breakAt_of_isCut hcut
  rwa [← List.append_assoc, breakAt_append] at hbreak

theorem stop_of_not_cut (h : (breakAt stop s).2 = []) (hs : t <:+ s) (ht : t ≠ []) :
    stop t = false := by
  have hcut := isCut_breakAt stop s
  have e := breakAt_append stop s
  rw [h, List.append_nil] at e
  rw [h, e] at hcut
  simpa using hcut.goesOn t ht hs

theorem breakAt_append_of_not_cut (hb : ∀ v, v ≠ [] → stop (v ++ b) = stop v)
    (h : (breakAt stop s).2 = []) (h' : (breakAt stop b).2 = []) :
    breakAt stop (s ++ b) = (s ++ b, []) := by
  have hcut : IsCut stop (s ++ b) [] := by
    refine ⟨.inl rfl, fun v hv hsuffix ↦ ?_⟩
    obtain ⟨u, e⟩ := hsuffix
    rw [List.append_nil]
    rcases List.append_eq_append_iff.mp e with ⟨w, rfl, rfl⟩ | ⟨w, rfl, rfl⟩
    · by_cases hw : w = []
      · subst hw
        exact stop_of_not_cut h' (List.suffix_refl b) hv
      · rw [hb w hw, stop_of_not_cut h (List.suffix_append u w) hw]
    · exact stop_of_not_cut h' (List.suffix_append w v) hv
  simpa using breakAt_of_isCut hcut

end Text

namespace Markup

namespace Token

theorem length_le_of_closesRaw (h : closesRaw name s = true) : name.length + 2 ≤ s.length := by
  have hlength := congrArg List.length (eq_of_beq h)
  simp [toLower] at hlength
  omega

/-- Behind its first character an end tag has no opening bracket. -/
theorem bracket_notMem_of_closesRaw (hname : '<' ∉ toLower name) {c : Char}
    (h : closesRaw name (c :: s) = true) : '<' ∉ s.take (name.length + 1) := by
  have hlower : toLower (s.take (name.length + 1)) = toLower ('/' :: name) :=
    (List.cons.inj (eq_of_beq h)).2
  intro hm
  have hm' : '<' ∈ toLower ('/' :: name) := hlower ▸ List.mem_map.mpr ⟨'<', hm, rfl⟩
  rcases List.mem_cons.mp hm' with e | hm'
  · cases e
  · exact hname hm'

/-- The end tag of a raw body does not go on in markup that follows it. -/
theorem length_le_of_closesRaw_append (hname : '<' ∉ toLower name) (hb : Stops (· != '<') b)
    (hs : s ≠ []) (h : closesRaw name (s ++ b) = true) : name.length + 2 ≤ s.length := by
  rcases eq_nil_or_bracket_of_stops hb with rfl | ⟨b', rfl⟩
  · rw [List.append_nil] at h
    exact length_le_of_closesRaw h
  · obtain ⟨c, s, rfl⟩ := List.exists_cons_of_ne_nil hs
    by_contra hlt
    rw [List.length_cons] at hlt
    have hm : '<' ∈ (s ++ '<' :: b').take (name.length + 1) := by
      obtain ⟨k, hk⟩ : ∃ k, name.length + 1 - s.length = k + 1 := ⟨name.length - s.length, by omega⟩
      rw [List.take_append, hk, List.take_succ_cons]
      exact List.mem_append_right _ List.mem_cons_self
    exact bracket_notMem_of_closesRaw hname h hm

theorem closesRaw_append (hname : '<' ∉ toLower name) (hb : Stops (· != '<') b) (hs : s ≠ []) :
    closesRaw name (s ++ b) = closesRaw name s := by
  have htake : name.length + 2 ≤ s.length → closesRaw name (s ++ b) = closesRaw name s := by
    intro hle
    rw [closesRaw, closesRaw, List.take_append_of_le_length hle]
  rw [Bool.eq_iff_iff]
  constructor
  · intro h
    rwa [← htake (length_le_of_closesRaw_append hname hb hs h)]
  · intro h
    rwa [htake (length_le_of_closesRaw h)]

theorem bracketed?_cons {c : Char} (h : c ∉ ['!', '/', '?']) (s : Text) :
    bracketed? (c :: s) = if isLetter c then some .startTag else none := by
  simp only [List.mem_cons, List.not_mem_nil, or_false, not_or] at h
  exact bracketed?.eq_4 c s (fun _ _ e ↦ absurd e h.1) (fun _ _ e ↦ absurd e h.2.1)
    (absurd · h.2.2)

/-- Two characters tell what is opened, and a bracket does not count as the second. -/
theorem bracketed?_append (hb : Stops (· != '<') b) (r : Text) :
    bracketed? (r ++ b) = bracketed? r := by
  rcases eq_nil_or_bracket_of_stops hb with rfl | ⟨b', rfl⟩
  · rw [List.append_nil]
  · cases r with
    | nil => cases b' <;> rfl
    | cons x r =>
      by_cases hx : x ∈ ['!', '/', '?']
      · simp only [List.mem_cons, List.not_mem_nil, or_false] at hx
        rcases hx with rfl | rfl | rfl <;> cases r <;> rfl
      · rw [List.cons_append, bracketed?_cons hx, bracketed?_cons hx]

/-! ## The first token -/

/-- The first token, and what follows it, are the same whatever markup follows the text. -/
def NextIs (c : Char) (r : Text) (t : Token) (rest : Text) : Prop :=
  ∀ b, Stops (· != '<') b → next c (r ++ b) = (t, rest ++ b)

/-- What follows an opening bracket starts something that is not closed. -/
inductive IsOpen : Text → Prop
  | comment {body : Text} : (breakOn "-->".toList body).2 = [] → IsOpen ("!--".toList ++ body)
  | bracketed {r : Text} {kind : Kind} : bracketed? r = some kind → '>' ∉ r → IsOpen r

theorem nextIs_text {c : Char} (hc : c ≠ '<') (r : Text) :
    NextIs c r ⟨.text, c :: r.takeWhile (· != '<')⟩ (r.dropWhile (· != '<')) := by
  intro b hb
  rw [next, if_neg (by simpa using hc), takeWhile_append_stops hb, dropWhile_append_stops hb]

/-- A comment that is closed ends at the same place, whatever markup follows. -/
theorem throughComment_append_stops (hb : Stops (· != '<') b)
    (h : (breakOn "-->".toList s).2 ≠ []) :
    throughComment (s ++ b) = ((throughComment s).1, (throughComment s).2 ++ b) := by
  have hcut := isCut_breakAt "-->".toList.isPrefixOf s
  have hlength : 3 ≤ (breakOn "-->".toList s).2.length :=
    (List.isPrefixOf_iff_prefix.mp (hcut.stops.resolve_left h)).length_le
  have hbreak := breakAt_append_of_cut (fun v _ ↦ isPrefixOf_append (by decide) hb v) h
  simp only [throughComment, breakOn, hbreak] at hlength ⊢
  rw [List.take_append_of_le_length hlength, List.drop_append_of_le_length hlength]

theorem nextIs_comment {body : Text} (h : (breakOn "-->".toList body).2 ≠ []) :
    NextIs '<' ("!--".toList ++ body) ⟨.comment, "<!--".toList ++ (throughComment body).1⟩
      (throughComment body).2 := by
  intro b hb
  have hnext : next '<' ("!--".toList ++ body ++ b) =
      (⟨.comment, "<!--".toList ++ (throughComment (body ++ b)).1⟩,
        (throughComment (body ++ b)).2) := rfl
  rw [hnext, throughComment_append_stops hb h]

theorem nextIs_bracketed {kind : Kind} (hk : bracketed? r = some kind) (h : '>' ∈ r) :
    ∃ t rest, NextIs '<' r t rest := by
  obtain ⟨s, rest, rfl, hs⟩ := List.eq_append_cons_of_mem h
  refine ⟨⟨kind, '<' :: (s ++ ['>'])⟩, rest, fun b hb ↦ ?_⟩
  have hk' : bracketed? (s ++ '>' :: (rest ++ b)) = some kind := by
    rw [← hk, ← bracketed?_append hb (s ++ '>' :: rest), List.append_assoc, List.cons_append]
  rw [List.append_assoc, List.cons_append]
  exact afterBracket_of_bracketed? hk' hs

theorem nextIs_bracket (hcomment : "!--".toList.isPrefixOf r = false) (h : bracketed? r = none) :
    NextIs '<' r ⟨.text, ['<']⟩ r := by
  intro b hb
  have hcomment' : ¬ "!--".toList.isPrefixOf (r ++ b) = true := by
    rw [isPrefixOf_append (by decide) hb, hcomment]
    exact Bool.false_ne_true
  rw [next, if_pos (beq_self_eq_true _), afterBracket, if_neg hcomment', bracketed?_append hb, h]

theorem nextIs_or_isOpen (c : Char) (r : Text) :
    (∃ t rest, NextIs c r t rest) ∨ c = '<' ∧ IsOpen r := by
  by_cases hc : c = '<'
  · subst hc
    by_cases hcomment : "!--".toList.isPrefixOf r = true
    · obtain ⟨body, rfl⟩ := List.isPrefixOf_iff_prefix.mp hcomment
      by_cases hbody : (breakOn "-->".toList body).2 = []
      · exact .inr ⟨rfl, .comment hbody⟩
      · exact .inl ⟨_, _, nextIs_comment hbody⟩
    · cases hk : bracketed? r with
      | none => exact .inl ⟨_, _, nextIs_bracket (Bool.eq_false_iff.mpr hcomment) hk⟩
      | some kind =>
        by_cases hr : '>' ∈ r
        · exact .inl (nextIs_bracketed hk hr)
        · exact .inr ⟨rfl, .bracketed hk hr⟩
  · exact .inl ⟨_, _, nextIs_text hc r⟩

/-! ## All tokens -/

/-- The text starts with these tokens, and then comes the rest, whatever markup follows. -/
def Begins (s : Text) (ts : List Token) (rest : Text) : Prop :=
  ∀ b, Stops (· != '<') b → tokens (s ++ b) = ts ++ tokens (rest ++ b)

variable {c : Char} {t : Token} {rest : Text}

theorem tokens_of_raw (h : opensRaw? (next c r).1 = some name) :
    tokens (c :: r) = (next c r).1 :: (rawBody name (next c r).2).1 ++
      tokens (rawBody name (next c r).2).2 := by
  rw [tokens, h]

theorem begins_of_nextIs (h : NextIs c r t rest) (ht : opensRaw? t = none) :
    Begins (c :: r) [t] rest := by
  intro b hb
  rw [List.cons_append, tokens, h b hb, ht]
  rfl

theorem isRawElement_of_opensRaw? (h : opensRaw? t = some name) : isRawElement name = true := by
  unfold opensRaw? at h
  split at h
  · split at h
    · next hraw => rwa [← Option.some.inj h]
    · cases h
  · cases h

theorem bracket_notMem_of_isRawElement (h : isRawElement name = true) : '<' ∉ toLower name := by
  simp only [isRawElement, Bool.or_eq_true, beq_iff_eq] at h
  rcases h with rfl | rfl <;> decide

theorem rawBody_append (hb : Stops (· != '<') b) (hname : isRawElement name = true)
    (h : (breakAt (closesRaw name) s).2 ≠ []) :
    rawBody name (s ++ b) = ((rawBody name s).1, (rawBody name s).2 ++ b) := by
  have hcloses : ∀ v, v ≠ [] → closesRaw name (v ++ b) = closesRaw name v :=
    fun v ↦ closesRaw_append (bracket_notMem_of_isRawElement hname) hb
  simp only [rawBody, breakAt_append_of_cut hcloses h]

theorem begins_of_raw (h : NextIs c r t rest) (ht : opensRaw? t = some name)
    (hclosed : (breakAt (closesRaw name) rest).2 ≠ []) :
    Begins (c :: r) (t :: (rawBody name rest).1) (rawBody name rest).2 := by
  intro b hb
  have hname := isRawElement_of_opensRaw? ht
  have hopens : opensRaw? (next c (r ++ b)).1 = some name := by rwa [h b hb]
  rw [List.cons_append, tokens_of_raw hopens, h b hb, rawBody_append hb hname hclosed]

end Token

/-! ## Closed texts -/

/-- Nothing is left open at the end of the text: a tag behind it is read as that tag. -/
def IsClosed (a : Text) : Prop :=
  events (a ++ "<br>".toList) = events a ++ [.startTag "br".toList []]

open Token

/-- A comment that is not closed takes all of the text. -/
theorem events_open_comment (h : (breakOn "-->".toList s).2 = []) :
    events ("<!--".toList ++ s) = [] := by
  have hrest : (throughComment s).2 = [] := congrArg (List.drop 3) h
  have hnext : next '<' ("!--".toList ++ s) =
      (⟨.comment, "<!--".toList ++ (throughComment s).1⟩, (throughComment s).2) := rfl
  have hevents := events_cons (c := '<') (r := "!--".toList ++ s) rfl
  rw [hnext, hrest, events_nil] at hevents
  exact hevents

theorem tokens_of_next_nil {c : Char} (h : (next c r).2 = []) :
    tokens (c :: r) = [(next c r).1] := by
  have hnil : tokens [] = [] := by rw [tokens]
  rw [tokens]
  split
  · rw [h, hnil]
  · next name _ =>
    have hraw : rawBody name [] = ([], []) := rfl
    rw [h, hraw, hnil]
    rfl

theorem next_of_open_bracket {kind : Kind} (hk : bracketed? r = some kind) (hr : '>' ∉ r) :
    next '<' r = (⟨.text, ['<']⟩, r) := by
  have hbracket : throughBracket? r = none := by
    rw [throughBracket?, List.dropWhile_eq_nil_iff.mpr (bne_of_notMem hr)]
  rw [next, if_pos (beq_self_eq_true _), afterBracket, isPrefixOf_eq_false_of_bracketed? hk,
    hbracket, hk]
  rfl

/-- An open construct takes in the tag behind it. -/
theorem not_isClosed_of_isOpen (h : IsOpen r) : ¬ IsClosed ('<' :: r) := by
  cases h with
  | @comment body h =>
    have hbreak := breakAt_append_of_not_cut (b := "<br>".toList)
      (fun v _ ↦ isPrefixOf_append (by decide) (stops_cons.mpr rfl) v) h rfl
    have hprobe := events_open_comment (s := body ++ "<br>".toList) (congrArg Prod.snd hbreak)
    intro hclosed
    have e : events ("<!--".toList ++ body ++ "<br>".toList) =
      events ("<!--".toList ++ body) ++ [.startTag "br".toList []] := hclosed
    rw [List.append_assoc, hprobe, events_open_comment h] at e
    cases e
  | @bracketed _ kind hk hr =>
    have hprobe : next '<' (r ++ "<br".toList ++ '>' :: []) =
        (⟨kind, '<' :: (r ++ "<br".toList ++ ['>'])⟩, []) := by
      refine afterBracket_of_bracketed? ?_ (by simp [hr])
      have hbr : Stops (· != '<') ("<br".toList ++ ['>']) := stops_cons.mpr rfl
      rw [List.append_assoc, bracketed?_append hbr, hk]
    have htokens := tokens_of_next_nil (congrArg Prod.snd hprobe)
    have hself : events ('<' :: r) = .text (Reference.decode ['<']) :: events r := by
      have hnext := next_of_open_bracket hk hr
      rw [events_cons (by rw [hnext]; rfl), hnext]
      rfl
    intro hclosed
    have hlength : (events ('<' :: (r ++ "<br".toList ++ ['>']))).length ≤ 1 := by
      rw [events, htokens]
      exact List.length_filterMap_le _ _
    have e : events ('<' :: (r ++ "<br".toList ++ ['>'])) =
        events ('<' :: r) ++ [.startTag "br".toList []] := by
      rw [← hclosed, List.append_assoc]
      rfl
    rw [e, hself] at hlength
    simp at hlength

theorem rawBody_of_not_closed (h : (breakAt (closesRaw name) s).2 = []) :
    rawBody name s = (if s.isEmpty then [] else [⟨.rawText, s⟩], []) := by
  have e := breakAt_append (closesRaw name) s
  rw [h, List.append_nil] at e
  simp only [rawBody, h, e]

theorem breakAt_closesRaw_br (h : isRawElement name = true) :
    (breakAt (closesRaw name) "<br>".toList).2 = [] := by
  simp only [isRawElement, Bool.or_eq_true, beq_iff_eq] at h
  rcases h with rfl | rfl <;> decide

/-- A raw body that is not closed takes all of the text. -/
theorem events_open_raw {c : Char} {t : Token} {rest : Text} (h : NextIs c r t rest)
    (ht : opensRaw? t = some name) (hb : Stops (· != '<') b)
    (hopen : (breakAt (closesRaw name) (rest ++ b)).2 = []) :
    events (c :: r ++ b) =
      t.event?.toList ++ if (rest ++ b).isEmpty then [] else [.text (rest ++ b)] := by
  have hnext : opensRaw? (next c (r ++ b)).1 = some name := by rwa [h b hb]
  have htext : ∀ s, event? ⟨.rawText, s⟩ = some (.text s) := fun _ ↦ rfl
  rw [List.cons_append, events, tokens_of_raw hnext, h b hb, rawBody_of_not_closed hopen, tokens,
    List.append_nil]
  cases he : t.event? <;> cases rest ++ b <;> simp [he, htext]

theorem not_isClosed_of_raw {c : Char} {t : Token} {rest : Text} (h : NextIs c r t rest)
    (ht : opensRaw? t = some name) (hopen : (breakAt (closesRaw name) rest).2 = []) :
    ¬ IsClosed (c :: r) := by
  have hname := isRawElement_of_opensRaw? ht
  have hbr : Stops (· != '<') "<br>".toList := stops_cons.mpr rfl
  have hcloses : ∀ v, v ≠ [] → closesRaw name (v ++ "<br>".toList) = closesRaw name v :=
    fun v ↦ closesRaw_append (bracket_notMem_of_isRawElement hname) hbr
  have hbreak := breakAt_append_of_not_cut hcloses hopen (breakAt_closesRaw_br hname)
  have hself := events_open_raw h ht stops_nil (by rwa [List.append_nil])
  rw [List.append_nil, List.append_nil] at hself
  intro hclosed
  rw [IsClosed, hself, events_open_raw h ht hbr (congrArg Prod.snd hbreak),
    List.append_assoc] at hclosed
  have htext := List.append_cancel_left hclosed
  cases rest with
  | nil => cases htext
  | cons x rest => simp at htext

theorem IsClosed.exists_begins {c : Char} (h : IsClosed (c :: r)) :
    ∃ ts rest, rest.length < (c :: r).length ∧ Begins (c :: r) ts rest := by
  rcases nextIs_or_isOpen c r with ⟨t, rest, hnext⟩ | ⟨rfl, hopen⟩
  · have hlength : rest.length < (c :: r).length := by
      have hself := hnext [] stops_nil
      rw [List.append_nil, List.append_nil] at hself
      exact (congrArg (fun x : Token × Text ↦ x.2.length) hself).symm.trans_lt (length_next_lt c r)
    cases ht : opensRaw? t with
    | none => exact ⟨_, _, hlength, begins_of_nextIs hnext ht⟩
    | some name =>
      have hclosed : (breakAt (closesRaw name) rest).2 ≠ [] :=
        fun hopen ↦ not_isClosed_of_raw hnext ht hopen h
      exact ⟨_, _, (length_rawBody_le name rest).trans_lt hlength, begins_of_raw hnext ht hclosed⟩
  · exact absurd h (not_isClosed_of_isOpen hopen)

theorem events_append_of_begins {ts : List Token} {rest : Text} (h : Begins s ts rest)
    (hb : Stops (· != '<') b) :
    events (s ++ b) = ts.filterMap Token.event? ++ events (rest ++ b) := by
  rw [events, h b hb, List.filterMap_append]
  rfl

/-- A closed text is read as by itself, whatever markup follows it. -/
theorem IsClosed.events_append (h : IsClosed a) (hb : Stops (· != '<') b) :
    events (a ++ b) = events a ++ events b := by
  induction hn : a.length using Nat.strong_induction_on generalizing a with
  | _ n ih =>
    cases a with
    | nil => rw [events_nil]; rfl
    | cons c r =>
      obtain ⟨ts, rest, hlength, hbegins⟩ := h.exists_begins
      have hself := events_append_of_begins hbegins stops_nil
      rw [List.append_nil, List.append_nil] at hself
      have hrest : IsClosed rest := by
        have hbr : Stops (· != '<') "<br>".toList := stops_cons.mpr rfl
        rw [IsClosed, events_append_of_begins hbegins hbr, hself, List.append_assoc] at h
        exact List.append_cancel_left h
      rw [events_append_of_begins hbegins hb, ih _ (hn ▸ hlength) hrest rfl, hself,
        List.append_assoc]

end Markup

end Typings
