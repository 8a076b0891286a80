import Typings.Proofs.Markup.Returns

/-!
# Iterating over the events of a document

The events of a document are found one by one.  A call looks for the next of them
(`Cursor.next?`): a raw body comes first, if one is due and not empty, and then tokens up to the
first that gives an event.  Underneath there are single steps (`Cursor.step?`), each of which takes
a stretch off the front of what is left.  All but an empty raw body take something
(`Cursor.ne_nil_of_step?`), and an empty raw body is not followed by another, so that steps run out
(`Runs.length_add_measure_le`); the stretches of a whole run are the document
(`runs_through_markup`).
-/

namespace Typings.Markup

open Text

/-! ## Descriptions -/

/-- Where an iteration stands: what is left of the document, and the element whose raw body this
starts with, if one does. -/
structure Cursor where
  rest : Text
  raw? : Option Text
deriving DecidableEq, Repr

/-- What a step takes off the front of a document. -/
inductive Step where
  | token (t : Token)
  /-- The raw body of an element, which may be empty. -/
  | rawBody (name body : Text)
deriving DecidableEq, Repr

namespace Step

def source : Step → Text
  | .token t => t.source
  | .rawBody _ body => body

def event? : Step → Option Event
  | .token t => t.event?
  | .rawBody _ body => if body.isEmpty then none else some (.text body)

def isToken : Step → Bool
  | .token _ => true
  | .rawBody _ _ => false

/-- The stretch ends where it should, in front of the rest: a comment behind its first `-->`, a raw
body in front of the first `</` and the name, and either at the end of the document if there is no
such place. -/
def EndsBefore : Step → Text → Prop
  | .token t, rest => t.kind = .comment → ∃ body, ¬ "-->".toList <:+: body ∧
      (t.source = "<!--".toList ++ body ++ "-->".toList ∨
        t.source = "<!--".toList ++ body ∧ rest = [])
  | .rawBody name body, rest => IsCut (Token.closesRaw name) body rest

end Step

namespace Cursor

def start (markup : Text) : Cursor := ⟨markup, none⟩

def step? : Cursor → Option (Step × Cursor)
  | ⟨rest, some name⟩ =>
    let (body, behind) := breakAt (Token.closesRaw name) rest
    some (.rawBody name body, ⟨behind, none⟩)
  | ⟨[], none⟩ => none
  | ⟨c :: r, none⟩ =>
    let (t, rest) := Token.next c r
    some (.token t, ⟨rest, t.opensRaw?⟩)

/-- The first event that a token gives. Tokens that give none are passed over. -/
def nextOfTokens? : Text → Option (Event × Cursor)
  | [] => none
  | c :: r =>
    match (Token.next c r).1.event? with
    | some e => some (e, ⟨(Token.next c r).2, (Token.next c r).1.opensRaw?⟩)
    | none => nextOfTokens? (Token.next c r).2
termination_by s => s.length
decreasing_by exact Token.length_next_lt c r

/-- The next event. -/
def next? (cur : Cursor) : Option (Event × Cursor) :=
  match cur.raw? with
  | none => nextOfTokens? cur.rest
  | some name =>
    let (body, behind) := breakAt (Token.closesRaw name) cur.rest
    if body.isEmpty then nextOfTokens? behind else some (.text body, ⟨behind, none⟩)

/-- What is left to do: two steps for each character, and one for a raw body that is due. -/
def measure (cur : Cursor) : Nat := 2 * cur.rest.length + if cur.raw?.isSome then 1 else 0

end Cursor

/-- Steps that follow each other lead from one cursor to the other. -/
inductive Runs : Cursor → List Step → Cursor → Prop
  | nil {cur : Cursor} : Runs cur [] cur
  | cons {cur mid last : Cursor} {x : Step} {xs : List Step} : cur.step? = some (x, mid) →
    Runs mid xs last → Runs cur (x :: xs) last

/-- The stretches of the steps are the document, and each of them ends where it should. Only a raw
body without an event is empty. -/
structure TakesApart (markup : Text) (xs : List Step) : Prop where
  flatten : (xs.map Step.source).flatten = markup
  endsBefore : ∀ ys x zs, xs = ys ++ x :: zs → x.EndsBefore (zs.map Step.source).flatten
  ne_nil : ∀ x ∈ xs, x.isToken = true ∨ x.event?.isSome = true → x.source ≠ []

/-- Calls that follow each other give these events, and the next call gives none. -/
inductive Yields : Cursor → List Event → Prop
  | done {cur : Cursor} : cur.next? = none → Yields cur []
  | call {cur mid : Cursor} {e : Event} {es : List Event} : cur.next? = some (e, mid) →
    Yields mid es → Yields cur (e :: es)

variable {cur mid last : Cursor} {x : Step} {xs : List Step} {es : List Event} {e : Event}

/-! ## Single steps -/

theorem Step.filterMap_event?_cons (x : Step) (xs : List Step) :
    (x :: xs).filterMap event? = x.event?.toList ++ xs.filterMap event? := by
  rw [List.filterMap_cons]
  cases x.event? <;> rfl

namespace Token

theorem filterMap_event?_rawBody (name s : Text) : (rawBody name s).1.filterMap event? =
    (Step.rawBody name (breakAt (closesRaw name) s).1).event?.toList := by
  rw [rawBody, Step.event?]
  dsimp only
  split <;> rfl

/-- A comment ends behind the first `-->` in it. -/
theorem exists_throughComment_eq (s : Text) : ∃ body, ¬ "-->".toList <:+: body ∧
    ((throughComment s).1 = body ++ "-->".toList ∨
      (throughComment s).1 = body ∧ (throughComment s).2 = []) := by
  have hcut := isCut_breakAt "-->".toList.isPrefixOf s
  rw [throughComment, breakOn]
  generalize breakAt "-->".toList.isPrefixOf s = parts at hcut
  obtain ⟨body, rest⟩ := parts
  refine ⟨body, ?_, ?_⟩
  · rintro ⟨a, b, rfl⟩
    have hgoesOn := hcut.goesOn ("-->".toList ++ b) (by simp) ⟨a, by simp⟩
    rw [← Bool.not_eq_true, List.isPrefixOf_iff_prefix] at hgoesOn
    exact hgoesOn ⟨b ++ rest, by simp⟩
  · rcases hcut.stops with rfl | hstop
    · exact .inr ⟨List.append_nil body, rfl⟩
    · obtain ⟨t, rfl⟩ := List.isPrefixOf_iff_prefix.mp hstop
      exact .inl rfl

theorem exists_comment_eq {c : Char} {r : Text} (h : (next c r).1.kind = .comment) :
    ∃ body, ¬ "-->".toList <:+: body ∧
      ((next c r).1.source = "<!--".toList ++ body ++ "-->".toList ∨
        (next c r).1.source = "<!--".toList ++ body ∧ (next c r).2 = []) := by
  rw [next] at h ⊢
  split at h
  · next hc =>
    rw [if_pos hc]
    rw [afterBracket] at h ⊢
    split at h
    · next hcomment =>
      obtain ⟨body, hbody, hends⟩ := exists_throughComment_eq (r.drop 3)
      rw [if_pos hcomment]
      refine ⟨body, hbody, hends.imp (fun h ↦ ?_) fun h ↦ ⟨?_, h.2⟩⟩
      · exact congrArg ("<!--".toList ++ ·) h
      · exact congrArg ("<!--".toList ++ ·) h.1
    · split at h
      · next hkind _ =>
        obtain rfl := h
        rcases cases_of_bracketed? hkind with hk | hk | hk | ⟨hk, -⟩ <;> cases hk
      · cases h
  · cases h

theorem opensRaw?_of_event?_eq_none {t : Token} (h : t.event? = none) : t.opensRaw? = none := by
  obtain ⟨kind, source⟩ := t
  cases kind with
  | startTag => cases h
  | _ => rfl

end Token

namespace Cursor

/-- What a step can do. -/
theorem step?_cases (h : cur.step? = some (x, mid)) :
    (∃ name rest, cur = ⟨rest, some name⟩ ∧
      x = .rawBody name (breakAt (Token.closesRaw name) rest).1 ∧
        mid = ⟨(breakAt (Token.closesRaw name) rest).2, none⟩) ∨
    ∃ c r, cur = ⟨c :: r, none⟩ ∧ x = .token (Token.next c r).1 ∧
      mid = ⟨(Token.next c r).2, (Token.next c r).1.opensRaw?⟩ := by
  obtain ⟨rest, raw?⟩ := cur
  cases raw? with
  | some name =>
    cases h
    exact .inl ⟨name, rest, rfl, rfl, rfl⟩
  | none =>
    cases rest with
    | nil => cases h
    | cons c r =>
      cases h
      exact .inr ⟨c, r, rfl, rfl, rfl⟩

theorem step?_append (h : cur.step? = some (x, mid)) : x.source ++ mid.rest = cur.rest := by
  obtain ⟨name, rest, rfl, rfl, rfl⟩ | ⟨c, r, rfl, rfl, rfl⟩ := step?_cases h
  · exact breakAt_append _ rest
  · exact Token.next_append c r

/-- A step that takes a token or gives an event takes something off the document. -/
theorem ne_nil_of_step? (h : cur.step? = some (x, mid))
    (hx : x.isToken = true ∨ x.event?.isSome = true) : x.source ≠ [] := by
  obtain ⟨name, rest, rfl, rfl, rfl⟩ | ⟨c, r, rfl, rfl, rfl⟩ := step?_cases h
  · intro hnil
    rw [Step.source] at hnil
    rw [Step.event?, hnil] at hx
    rcases hx with hx | hx <;> cases hx
  · exact Token.next_source_ne_nil c r

theorem endsBefore_of_step? (h : cur.step? = some (x, mid)) : x.EndsBefore mid.rest := by
  obtain ⟨name, rest, rfl, rfl, rfl⟩ | ⟨c, r, rfl, rfl, rfl⟩ := step?_cases h
  · exact isCut_breakAt _ rest
  · exact Token.exists_comment_eq

theorem measure_lt_of_step? (h : cur.step? = some (x, mid)) : mid.measure < cur.measure := by
  obtain ⟨name, rest, rfl, rfl, rfl⟩ | ⟨c, r, rfl, rfl, rfl⟩ := step?_cases h
  · have := length_breakAt_snd_le (Token.closesRaw name) rest
    simp only [measure, Option.isSome_some, Option.isSome_none, if_true, Bool.false_eq_true,
      if_false]
    omega
  · have := Token.length_next_lt c r
    simp only [measure, Option.isSome_none, Bool.false_eq_true, if_false]
    split <;> omega

end Cursor

/-! ## Runs -/

namespace Runs

theorem flatten_append (h : Runs cur xs last) :
    (xs.map Step.source).flatten ++ last.rest = cur.rest := by
  induction h with
  | nil => rfl
  | cons hx _ ih =>
    rw [List.map_cons, List.flatten_cons, List.append_assoc, ih]
    exact Cursor.step?_append hx

/-- A step of a run stands between the steps in front of it and those behind. -/
theorem exists_step? {ys zs : List Step} (h : Runs cur (ys ++ x :: zs) last) :
    ∃ a b, Runs cur ys a ∧ a.step? = some (x, b) ∧ Runs b zs last := by
  induction ys generalizing cur with
  | nil =>
    cases h with
    | cons hx h => exact ⟨_, _, .nil, hx, h⟩
  | cons y ys ih =>
    cases h with
    | cons hy h =>
      obtain ⟨a, b, ha, hx, hb⟩ := ih h
      exact ⟨a, b, .cons hy ha, hx, hb⟩

theorem takesApart {markup : Text} (h : Runs (.start markup) xs (.start [])) :
    TakesApart markup xs where
  flatten := by simpa [Cursor.start] using h.flatten_append
  endsBefore ys x zs e := by
    obtain ⟨a, b, -, hx, hb⟩ := exists_step? (e ▸ h)
    have hrest : (zs.map Step.source).flatten = b.rest := by
      simpa [Cursor.start] using hb.flatten_append
    rw [hrest]
    exact Cursor.endsBefore_of_step? hx
  ne_nil x hx := by
    obtain ⟨ys, zs, rfl⟩ := List.append_of_mem hx
    obtain ⟨a, b, -, hstep, -⟩ := exists_step? h
    exact Cursor.ne_nil_of_step? hstep

/-- There is one way to go on, so that a run is the beginning of any run that cannot go on. -/
theorem isPrefix {ys : List Step} (hys : Runs cur ys mid) (hxs : Runs cur xs last)
    (hlast : last.step? = none) : ys <+: xs := by
  induction hys generalizing xs with
  | nil => exact List.nil_prefix
  | @cons cur b mid y ys hy _ ih =>
    cases hxs with
    | nil => cases hlast.symm.trans hy
    | cons hx hxs =>
      obtain ⟨rfl, rfl⟩ : _ = y ∧ _ = b := by simpa using hx.symm.trans hy
      exact (List.prefix_cons_inj _).mpr (ih hxs)

theorem length_add_measure_le (h : Runs cur xs last) : xs.length + last.measure ≤ cur.measure := by
  induction h with
  | nil => simp
  | cons hx _ ih =>
    have := Cursor.measure_lt_of_step? hx
    rw [List.length_cons]
    omega

theorem length_events_le (h : Runs cur xs last) :
    (xs.filterMap Step.event?).length ≤ (xs.map Step.source).flatten.length := by
  induction h with
  | nil => simp
  | @cons cur mid last x xs hx _ ih =>
    rw [List.map_cons, List.flatten_cons, List.length_append]
    cases he : x.event? with
    | none =>
      rw [List.filterMap_cons_none he]
      omega
    | some e =>
      have := List.length_pos_iff.mpr (Cursor.ne_nil_of_step? hx (.inr (by rw [he]; rfl)))
      rw [List.filterMap_cons_some he, List.length_cons]
      omega

/-- A document can be gone through to its end, and that gives its events. -/
theorem exists_events (s : Text) :
    ∃ xs, Runs (.start s) xs (.start []) ∧ xs.filterMap Step.event? = events s := by
  -- A token leads to a shorter document at once, and one that opens a raw body in two steps.
  induction hn : s.length using Nat.strong_induction_on generalizing s with
  | _ n ih =>
    cases s with
    | nil => exact ⟨[], .nil, events_nil.symm⟩
    | cons c r =>
      have hlength : (Token.next c r).2.length < n := hn ▸ Token.length_next_lt c r
      have hstep : (Cursor.start (c :: r)).step? =
          some (.token (Token.next c r).1,
            ⟨(Token.next c r).2, (Token.next c r).1.opensRaw?⟩) := rfl
      cases hraw : (Token.next c r).1.opensRaw? with
      | none =>
        obtain ⟨xs, hxs, hevents⟩ := ih _ hlength _ rfl
        rw [hraw] at hstep
        refine ⟨_, .cons hstep hxs, ?_⟩
        rw [events_cons hraw, ← hevents]
        exact Step.filterMap_event?_cons _ _
      | some name =>
        have hbehind := Token.length_rawBody_le name (Token.next c r).2
        obtain ⟨xs, hxs, hevents⟩ := ih _ (hbehind.trans_lt hlength) _ rfl
        rw [hraw] at hstep
        refine ⟨_, .cons hstep (.cons rfl hxs), ?_⟩
        rw [events_cons_of_raw hraw, ← hevents, Token.filterMap_event?_rawBody,
          Step.filterMap_event?_cons, Step.filterMap_event?_cons]
        rfl

end Runs

/-! ## Calls -/

namespace Cursor

theorem next?_of_step?_eq_none (h : cur.step? = none) : cur.next? = none := by
  obtain ⟨rest, raw?⟩ := cur
  cases raw? with
  | some name => cases h
  | none =>
    cases rest with
    | nil => rw [next?, nextOfTokens?]
    | cons c r => cases h

theorem next?_of_event? (h : cur.step? = some (x, mid)) (he : x.event? = some e) :
    cur.next? = some (e, mid) := by
  obtain ⟨name, rest, rfl, rfl, rfl⟩ | ⟨c, r, rfl, rfl, rfl⟩ := step?_cases h
  · rw [Step.event?] at he
    split at he
    · cases he
    · next hbody =>
      cases he
      exact if_neg hbody
  · have htoken : (Token.next c r).1.event? = some e := he
    rw [next?, nextOfTokens?, htoken]

/-- A step without an event leaves the call as it is. -/
theorem next?_of_event?_eq_none (h : cur.step? = some (x, mid)) (he : x.event? = none) :
    cur.next? = mid.next? := by
  obtain ⟨name, rest, rfl, rfl, rfl⟩ | ⟨c, r, rfl, rfl, rfl⟩ := step?_cases h
  · rw [Step.event?] at he
    split at he
    · next hbody => exact if_pos hbody
    · cases he
  · have htoken : (Token.next c r).1.event? = none := he
    rw [Token.opensRaw?_of_event?_eq_none htoken, next?, nextOfTokens?, htoken]
    rfl

/-- A call takes steps up to the first that gives an event. -/
theorem exists_runs_of_next? (h : cur.next? = some (e, mid)) :
    ∃ ys x, Runs cur (ys ++ [x]) mid ∧ (∀ y ∈ ys, y.event? = none) ∧ x.event? = some e := by
  induction hn : cur.measure using Nat.strong_induction_on generalizing cur with
  | _ n ih =>
    cases hstep : cur.step? with
    | none => cases (next?_of_step?_eq_none hstep).symm.trans h
    | some taken =>
      obtain ⟨x, behind⟩ := taken
      cases he : x.event? with
      | none =>
        have hnext := (next?_of_event?_eq_none hstep he).symm.trans h
        obtain ⟨ys, z, hrun, hys, hz⟩ := ih _ (hn ▸ measure_lt_of_step? hstep) hnext rfl
        exact ⟨x :: ys, z, .cons hstep hrun, List.forall_mem_cons.mpr ⟨he, hys⟩, hz⟩
      | some e' =>
        obtain ⟨rfl, rfl⟩ : e' = e ∧ behind = mid := by
          simpa using (next?_of_event? hstep he).symm.trans h
        exact ⟨[], x, .cons hstep .nil, by simp, he⟩

end Cursor

theorem Yields.of_next?_eq (h : Yields mid es) (hnext : cur.next? = mid.next?) : Yields cur es := by
  cases h with
  | done h => exact .done (hnext.trans h)
  | call h hes => exact .call (hnext.trans h) hes

/-- The calls give the events of the steps. -/
theorem Runs.yields (h : Runs cur xs last) (hlast : last.step? = none) :
    Yields cur (xs.filterMap Step.event?) := by
  induction h with
  | nil => exact .done (Cursor.next?_of_step?_eq_none hlast)
  | @cons cur mid last x xs hx _ ih =>
    rw [Step.filterMap_event?_cons]
    cases he : x.event? with
    | none => exact (ih hlast).of_next?_eq (Cursor.next?_of_event?_eq_none hx he)
    | some e => exact .call (Cursor.next?_of_event? hx he) (ih hlast)

/-- Steps from the start of a document, as far as they go, are the beginning of one run to its end.
The stretches that this run takes are the document, one behind the other, and all but empty raw
bodies are not empty.  A call takes steps up to the first with an event, and the calls give the
events of the document, no more than it has characters, and then none. -/
theorem runs_through_markup (markup : Text) :
    ∃ xs, Runs (.start markup) xs (.start []) ∧
      (∀ ys cur, Runs (.start markup) ys cur →
        ys <+: xs ∧ (ys.map Step.source).flatten ++ cur.rest = markup) ∧
      TakesApart markup xs ∧ xs.length ≤ 2 * markup.length ∧
      (∀ cur e mid, Cursor.next? cur = some (e, mid) → ∃ ys x, Runs cur (ys ++ [x]) mid ∧
        (∀ y ∈ ys, y.event? = none) ∧ x.event? = some e) ∧
      Yields (.start markup) (xs.filterMap Step.event?) ∧
      xs.filterMap Step.event? = events markup ∧ (events markup).length ≤ markup.length := by
  obtain ⟨xs, hxs, hevents⟩ := Runs.exists_events markup
  have hflatten : (xs.map Step.source).flatten = markup := hxs.takesApart.flatten
  refine ⟨xs, hxs, fun ys cur hys ↦ ⟨hys.isPrefix hxs rfl, hys.flatten_append⟩, hxs.takesApart, ?_,
    fun cur e mid ↦ Cursor.exists_runs_of_next?, hxs.yields rfl, hevents, ?_⟩
  · have := hxs.length_add_measure_le
    simp only [Cursor.measure, Cursor.start, Option.isSome_none, Bool.false_eq_true,
      if_false] at this
    omega
  · calc (events markup).length
      _ = (xs.filterMap Step.event?).length := by rw [hevents]
      _ ≤ (xs.map Step.source).flatten.length := hxs.length_events_le
      _ = markup.length := by rw [hflatten]

/-- An empty raw body, which gives no event, in front of an end tag and of a comment that is not
closed. -/
theorem runs_through_markup_script :
    let markup := "<script></script><!-- x --".toList
    let first : Step := .token ⟨.startTag, "<script>".toList⟩
    let behind : Cursor := ⟨"</script><!-- x --".toList, some "script".toList⟩
    let event : Event := .endTag "script".toList
    let last : Cursor := ⟨"<!-- x --".toList, none⟩
    Runs (.start markup) [first] behind ∧ behind.next? = some (event, last) ∧
      ∃ xs, Runs (.start markup) xs (.start []) ∧ [first] <+: xs ∧ TakesApart markup xs ∧
        ∃ ys x, Runs behind (ys ++ [x]) last ∧ (∀ y ∈ ys, y.event? = none) ∧
          x.event? = some event := by
  intro markup first behind event last
  have hstep : (Cursor.start markup).step? = some (first, behind) := by decide
  have hbody : behind.step? =
      some (.rawBody "script".toList [], .start "</script><!-- x --".toList) := by decide
  have htag : (Cursor.start "</script><!-- x --".toList).step? =
      some (.token ⟨.endTag, "</script>".toList⟩, last) := by decide
  have hnext : behind.next? = some (event, last) :=
    (Cursor.next?_of_event?_eq_none hbody rfl).trans (Cursor.next?_of_event? htag (by decide))
  have hfirst : Runs (.start markup) [first] behind := .cons hstep .nil
  obtain ⟨xs, hxs, hsteps, htakes, -, hcalls, -⟩ := runs_through_markup markup
  exact ⟨hfirst, hnext, xs, hxs, (hsteps _ _ hfirst).1, htakes, hcalls _ _ _ hnext⟩

end Typings.Markup
