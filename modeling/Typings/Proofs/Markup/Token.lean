import Mathlib.Data.List.Infix
import Typings.Markup.Token
import Typings.Proofs.Text.Basic

/-!
# The first construct of a document

What a document says is what its first construct says, and then what the rest of it says.  A
construct in brackets ends at its first closing bracket (`events_bracketed`), a comment at its first
`-->` (`events_comment`), and text in front of the next opening bracket (`events_text`).
-/

namespace Typings.Markup

open Text

variable {c : Char} {r s t body rest : Text} {kind : Token.Kind}

namespace Token

/-! ## Brackets -/

theorem throughBracket?_of_notMem (h : '>' ∉ s) (rest : Text) :
    throughBracket? (s ++ '>' :: rest) = some (s ++ ['>'], rest) := by
  have hs := bne_of_notMem h
  have hr : Stops (· != '>') ('>' :: rest) := by simp
  rw [throughBracket?, dropWhile_append_of_stops hs hr, takeWhile_append_of_stops hs hr]

/-- What starts a comment starts no other construct in brackets. -/
theorem isPrefixOf_eq_false_of_bracketed? (h : bracketed? r = some kind) :
    "!--".toList.isPrefixOf r = false := by
  rw [← Bool.not_eq_true, List.isPrefixOf_iff_prefix]
  rintro ⟨t, rfl⟩
  cases h

theorem afterBracket_of_bracketed? (hk : bracketed? (s ++ '>' :: rest) = some kind) (h : '>' ∉ s) :
    afterBracket (s ++ '>' :: rest) = (⟨kind, '<' :: (s ++ ['>'])⟩, rest) := by
  rw [afterBracket, isPrefixOf_eq_false_of_bracketed? hk, hk, throughBracket?_of_notMem h]
  rfl

theorem bracketed?_of_isLetter (h : isLetter c = true) : bracketed? (c :: s) = some .startTag := by
  have hne : ∀ d, isLetter d = false → c ≠ d := by
    rintro d hd rfl
    rw [h] at hd
    cases hd
  rw [bracketed?.eq_4 c s (fun _ _ e ↦ absurd e (hne '!' (by decide)))
    (fun _ _ e ↦ absurd e (hne '/' (by decide))) (hne '?' (by decide)), if_pos h]

@[simp] theorem inner_startTag (s : Text) : inner ⟨.startTag, '<' :: (s ++ ['>'])⟩ = s := by
  simp [inner]

@[simp] theorem inner_endTag (s : Text) : inner ⟨.endTag, '<' :: ('/' :: s ++ ['>'])⟩ = s := by
  simp [inner]

/-! ## Comments -/

/-- Behind a body without `-->` the closing one is the first, as it cannot begin in the body: no end
of it is its start. -/
theorem throughComment_append_of_not_infix (h : ¬ "-->".toList <:+: body) (rest : Text) :
    throughComment (body ++ ("-->".toList ++ rest)) = (body ++ "-->".toList, rest) := by
  have hcut : IsCut "-->".toList.isPrefixOf body ("-->".toList ++ rest) := by
    refine ⟨.inr (List.isPrefixOf_iff_prefix.mpr (List.prefix_append _ _)), fun v hv hs ↦ ?_⟩
    rw [← Bool.not_eq_true, List.isPrefixOf_iff_prefix]
    intro hp
    rcases v with _ | ⟨x, _ | ⟨y, _ | ⟨z, v⟩⟩⟩
    · exact hv rfl
    · simp at hp
    · simp at hp
    · -- the three characters stand in the body itself
      obtain ⟨rfl, rfl, rfl⟩ : '-' = x ∧ '-' = y ∧ '>' = z := by simpa using hp
      exact h (.trans ⟨[], v, rfl⟩ hs.isInfix)
  rw [throughComment, breakOn, breakAt_of_isCut hcut]
  rfl

end Token

/-! ## Events -/

@[simp] theorem events_nil : events [] = [] := by
  rw [events, Token.tokens]
  rfl

theorem events_cons (h : (Token.next c r).1.opensRaw? = none) :
    events (c :: r) = (Token.next c r).1.event?.toList ++ events (Token.next c r).2 := by
  rw [events, Token.tokens, h]
  cases he : (Token.next c r).1.event? <;> simp [events, he]

theorem events_bracketed (hk : Token.bracketed? (s ++ '>' :: rest) = some kind) (h : '>' ∉ s)
    (hraw : Token.opensRaw? ⟨kind, '<' :: (s ++ ['>'])⟩ = none) :
    events ('<' :: (s ++ '>' :: rest)) =
      (Token.event? ⟨kind, '<' :: (s ++ ['>'])⟩).toList ++ events rest := by
  have hnext : Token.next '<' (s ++ '>' :: rest) = (⟨kind, '<' :: (s ++ ['>'])⟩, rest) :=
    Token.afterBracket_of_bracketed? hk h
  rw [events_cons (by rwa [hnext]), hnext]

theorem events_comment (h : ¬ "-->".toList <:+: body) (rest : Text) :
    events ("<!--".toList ++ body ++ "-->".toList ++ rest) = events rest := by
  have hopen : "<!--".toList = ['<', '!', '-', '-'] := rfl
  have hnext : Token.next '<' ('!' :: '-' :: '-' :: (body ++ ("-->".toList ++ rest))) =
      (⟨.comment, '<' :: '!' :: '-' :: '-' :: (body ++ "-->".toList)⟩, rest) := by
    rw [Token.next, if_pos (by rfl), Token.afterBracket, if_pos (by rfl)]
    simp only [List.drop_succ_cons, List.drop_zero, Token.throughComment_append_of_not_infix h]
  have e : "<!--".toList ++ body ++ "-->".toList ++ rest =
      '<' :: '!' :: '-' :: '-' :: (body ++ ("-->".toList ++ rest)) := by
    simp only [hopen, List.append_assoc, List.cons_append, List.nil_append]
  rw [e, events_cons (by rw [hnext]; rfl), hnext]
  rfl

theorem events_text (ht : t ≠ []) (h : '<' ∉ t) (hs : Stops (· != '<') rest) :
    events (t ++ rest) = .text (Reference.decode t) :: events rest := by
  cases t with
  | nil => exact absurd rfl ht
  | cons c t =>
    rw [List.mem_cons, not_or] at h
    have ht' := bne_of_notMem h.2
    have hc : (c == '<') = false := by simpa using fun e ↦ h.1 e.symm
    have hnext : Token.next c (t ++ rest) = (⟨.text, c :: t⟩, rest) := by
      rw [Token.next, hc, takeWhile_append_of_stops ht' hs, dropWhile_append_of_stops ht' hs]
      rfl
    rw [List.cons_append, events_cons (by rw [hnext]; rfl), hnext]
    rfl

end Typings.Markup
