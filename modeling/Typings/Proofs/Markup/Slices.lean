import Typings.Proofs.Markup.Returns
import Typings.Proofs.Text.Offset

/-!
# Slices of a document

The events of a document, with every part of it cut out by byte offsets.  No slice fails, and the
events are the same (`eventsBySlices?_eq`): a tag starts and ends with ASCII brackets, a name in
lower case takes as many bytes as the name, and what is searched for in the bytes is found between
characters.
-/

namespace Typings.Markup

open Text

variable {c : Char} {r s name : Text}

/-! ## Descriptions -/

/-- The start tag of a token. Its attributes stand behind as many bytes as its name has in lower
case. -/
def Tag.startBySlices? (source : Text) : Option Event :=
  (slice? source 1 (byteLength source - 1)).bind fun inner =>
    (slice? inner (byteLength (Tag.name inner)) (byteLength inner)).map fun rest =>
      .startTag (Tag.name inner) (Tag.attributes rest)

/-- The end tag of a token. -/
def Tag.endBySlices? (source : Text) : Option Event :=
  (slice? source 2 (byteLength source - 1)).map Tag.endEvent

/-- The name of the element that a start tag opens, if its body is raw. -/
def Event.rawName? : Event → Option Text
  | .startTag name _ => if Token.isRawElement name then some name else none
  | _ => none

namespace Token

/-- The number of bytes of a comment behind its opening. -/
def commentLength (s : Text) : Nat := ((offsetOf? "-->".toList s).map (· + 3)).getD (byteLength s)

def nextBySlices? (c : Char) (r : Text) : Option (Token × Text) :=
  if c == '<' && "!--".toList.isPrefixOf r then
    (cut? (r.drop 3) (commentLength (r.drop 3))).map fun (source, rest) =>
      (⟨.comment, '<' :: '!' :: '-' :: '-' :: source⟩, rest)
  else some (next c r)

def eventBySlices? (t : Token) : Option (Option Event) :=
  match t.kind with
  | .startTag => (Tag.startBySlices? t.source).map some
  | .endTag => (Tag.endBySlices? t.source).map some
  | _ => some t.event?

/-- The number of bytes of a raw body. -/
def rawLength (name s : Text) : Nat :=
  (offsetIgnoringCase? ('<' :: '/' :: name) s).getD (byteLength s)

def rawBodyBySlices? (name s : Text) : Option (List Token × Text) :=
  (slice? s 0 (rawLength name s)).bind fun body =>
    (cut? s (rawLength name s)).map fun (_, rest) =>
      (if body.isEmpty then [] else [⟨.rawText, body⟩], rest)

/-! ## Single tokens -/

theorem commentLength_eq (s : Text) : commentLength s = byteLength (throughComment s).1 := by
  have hcut := isCut_breakAt "-->".toList.isPrefixOf s
  have hlength := getD_cutOffset?_breakAt "-->".toList.isPrefixOf s
  rw [commentLength, offsetOf?_eq (by decide), throughComment, breakOn]
  generalize breakAt "-->".toList.isPrefixOf s = parts at hcut hlength
  obtain ⟨body, rest⟩ := parts
  rcases hcut.stops with rfl | hstop
  · exact hlength.trans (congrArg byteLength (List.append_nil body).symm)
  · obtain ⟨t, rfl⟩ := List.isPrefixOf_iff_prefix.mp hstop
    exact (byteLength_append body "-->".toList).symm

theorem nextBySlices?_eq (c : Char) (r : Text) : nextBySlices? c r = some (next c r) := by
  unfold nextBySlices?
  split
  · next h =>
    obtain ⟨hc, hcomment⟩ := Bool.and_eq_true_iff.mp h
    have hcut := cut?_append (throughComment (r.drop 3)).1 (throughComment (r.drop 3)).2
    rw [throughComment_append] at hcut
    rw [commentLength_eq, hcut, next, if_pos hc, afterBracket, if_pos hcomment]
    rfl
  · rfl

theorem rawLength_eq (name s : Text) :
    rawLength name s = byteLength (breakAt (closesRaw name) s).1 := by
  rw [rawLength, offsetIgnoringCase?_eq (List.cons_ne_nil _ _)]
  exact getD_cutOffset?_breakAt (closesRaw name) s

theorem rawBodyBySlices?_eq (name s : Text) :
    rawBodyBySlices? name s = some (rawBody name s) := by
  have hslice := slice?_front (breakAt (closesRaw name) s).1 (breakAt (closesRaw name) s).2
  have hcut := cut?_append (breakAt (closesRaw name) s).1 (breakAt (closesRaw name) s).2
  rw [breakAt_append] at hslice hcut
  rw [rawBodyBySlices?, rawLength_eq, hslice, hcut]
  rfl

end Token

theorem Tag.startBySlices?_eq (s : Text) :
    Tag.startBySlices? ('<' :: (s ++ ['>'])) = some (Tag.startEvent s) := by
  have hinner : slice? ('<' :: (s ++ ['>'])) 1 (byteLength ('<' :: (s ++ ['>'])) - 1) = some s :=
    slice?_between ['<'] s ['>']
  have hrest := slice?_back (s.takeWhile isNameChar) (s.dropWhile isNameChar)
  rw [List.takeWhile_append_dropWhile] at hrest
  rw [startBySlices?, hinner, Option.bind_some, name, byteLength_toLower, hrest]
  rfl

theorem Tag.endBySlices?_eq (s : Text) :
    Tag.endBySlices? ('<' :: ('/' :: s ++ ['>'])) = some (Tag.endEvent s) :=
  congrArg (Option.map endEvent) (slice?_between ['<', '/'] s ['>'])

namespace Token

theorem eventBySlices?_bracketed {kind : Kind} {rest : Text}
    (hk : bracketed? (s ++ '>' :: rest) = some kind) :
    eventBySlices? ⟨kind, '<' :: (s ++ ['>'])⟩ = some (event? ⟨kind, '<' :: (s ++ ['>'])⟩) := by
  rcases cases_of_bracketed? hk with rfl | rfl | rfl | ⟨rfl, u, hu⟩
  · rfl
  · rfl
  · rw [eventBySlices?, event?, inner_startTag, Tag.startBySlices?_eq]
    rfl
  · cases s with
    | nil => cases hu
    | cons c s =>
      obtain rfl := (List.cons.inj hu).1
      rw [eventBySlices?, event?, inner_endTag, Tag.endBySlices?_eq]
      rfl

theorem eventBySlices?_afterBracket (r : Text) :
    eventBySlices? (afterBracket r).1 = some (afterBracket r).1.event? := by
  cases hcomment : "!--".toList.isPrefixOf r with
  | true =>
    rw [afterBracket, hcomment]
    rfl
  | false =>
    by_cases hgt : '>' ∈ r
    · obtain ⟨u, rest, rfl, hu⟩ := List.eq_append_cons_of_mem hgt
      cases hk : bracketed? (u ++ '>' :: rest) with
      | none =>
        rw [afterBracket_of_bracketed?_eq_none hcomment hk]
        rfl
      | some kind =>
        rw [afterBracket_of_bracketed? hk hu]
        exact eventBySlices?_bracketed hk
    · rw [afterBracket_of_bracket_notMem hcomment hgt]
      rfl

theorem eventBySlices?_next (c : Char) (r : Text) :
    eventBySlices? (next c r).1 = some (next c r).1.event? := by
  unfold next
  split
  · exact eventBySlices?_afterBracket r
  · rfl

theorem next_of_slices {t : Token} {rest : Text} {e : Option Event}
    (h : nextBySlices? c r = some (t, rest)) (he : t.eventBySlices? = some e) :
    next c r = (t, rest) ∧ t.event? = e := by
  have hnext := Option.some.inj ((nextBySlices?_eq c r).symm.trans h)
  have hevent := eventBySlices?_next c r
  rw [hnext, he] at hevent
  exact ⟨hnext, (Option.some.inj hevent).symm⟩

/-- The event of a token tells whether a raw body follows. -/
theorem bind_rawName?_event? (t : Token) : t.event?.bind Event.rawName? = t.opensRaw? := by
  obtain ⟨kind, source⟩ := t
  cases kind <;> rfl

end Token

/-! ## All events -/

/-- The events of a document, token by token. -/
def eventsBySlices? : Text → Option (List Event)
  | [] => some []
  | c :: r =>
    match _h : Token.nextBySlices? c r with
    | none => none
    | some (t, rest) =>
      match t.eventBySlices? with
      | none => none
      | some e =>
        match e.bind Event.rawName? with
        | none => (eventsBySlices? rest).map (e.toList ++ ·)
        | some name =>
          match _hraw : Token.rawBodyBySlices? name rest with
          | none => none
          | some (body, behind) =>
            (eventsBySlices? behind).map ((e.toList ++ body.filterMap Token.event?) ++ ·)
termination_by s => s.length
decreasing_by
  all_goals
    have hlength := Token.length_next_lt c r
    rw [Token.nextBySlices?_eq, Option.some.injEq] at _h
    rw [_h] at hlength
  · exact hlength
  · have hraw := Token.length_rawBody_le name rest
    rw [Token.rawBodyBySlices?_eq, Option.some.injEq] at _hraw
    rw [_hraw] at hraw
    exact hraw.trans_lt hlength

theorem eventsBySlices?_eq (markup : Text) : eventsBySlices? markup = some (events markup) := by
  fun_induction eventsBySlices? markup with
  | case1 => rw [events_nil]
  | case2 c r h => cases (Token.nextBySlices?_eq c r).symm.trans h
  | case3 c r t rest h he =>
    obtain rfl : (Token.next c r).1 = t := by
      rw [Option.some.inj ((Token.nextBySlices?_eq c r).symm.trans h)]
    cases (Token.eventBySlices?_next c r).symm.trans he
  | case4 c r t rest h e he hraw ih =>
    obtain ⟨ht, rfl⟩ := Token.next_of_slices h he
    rw [Token.bind_rawName?_event?] at hraw
    rw [events_cons (by rw [ht, hraw]), ht, ih]
    rfl
  | case5 c r t rest h e he name hraw hbody => cases (Token.rawBodyBySlices?_eq _ _).symm.trans hbody
  | case6 c r t rest h e he name hraw body behind hbody ih =>
    obtain ⟨ht, rfl⟩ := Token.next_of_slices h he
    have hbody' := Option.some.inj ((Token.rawBodyBySlices?_eq _ _).symm.trans hbody)
    rw [Token.bind_rawName?_event?] at hraw
    rw [events_cons_of_raw (by rw [ht, hraw]), ht, hbody', ih, Option.map_some, List.append_assoc]

end Typings.Markup
