import Typings.Proofs.Markup.Decoding
import Typings.Proofs.Markup.Local

/-!
# Brackets that open nothing

A bracket that begins no complete construct is a text of its own, and so is what stands between two
of them.  A reference does not reach over a bracket, so that decoding text by text is decoding all
of it (`events_of_isStray`).
-/

namespace Typings.Markup

open Text

variable {c : Char} {r s t : Text} {kind : Token.Kind}

/-! ## Descriptions -/

/-- A bracket in front of the text begins a construct that is complete: a comment, which needs no
end, or a tag, a declaration or an instruction with a closing bracket anywhere behind. -/
def BeginsConstruct (r : Text) : Prop :=
  "!--".toList <+: r ∨ '>' ∈ r ∧
    (r.head?.any isLetter = true ∨
      r.head? = some '/' ∧ r.tail.head?.any isLetter = true ∨
      r.head? = some '!' ∧ r.tail.head?.any (fun c ↦ isLetter c || c == '[') = true ∨
      r.head? = some '?')

instance (r : Text) : Decidable (BeginsConstruct r) := inferInstanceAs (Decidable (_ ∨ _ ∧ _))

/-- No bracket of the text begins a complete construct. -/
def IsStray (s : Text) : Prop := ∀ r, '<' :: r <:+ s → ¬ BeginsConstruct r

instance (s : Text) : Decidable (IsStray s) :=
  decidable_of_iff (∀ t ∈ s.tails, t.head? = some '<' → ¬ BeginsConstruct t.tail) <| by
    simp only [List.mem_tails]
    constructor
    · intro h r hr
      exact h _ hr rfl
    · intro h t ht hhead
      obtain ⟨r, rfl⟩ := List.head?_eq_some_iff.mp hhead
      exact h r ht

/-! ## The first token -/

theorem IsStray.of_suffix (h : IsStray s) (ht : t <:+ s) : IsStray t :=
  fun r hr ↦ h r (hr.trans ht)

theorem beginsConstruct_of_bracketed? (hk : Token.bracketed? r = some kind) (h : '>' ∈ r) :
    BeginsConstruct r := by
  refine .inr ⟨h, ?_⟩
  unfold Token.bracketed? at hk
  split at hk
  · next c _ =>
    split at hk
    · next hc => exact .inr (.inr (.inl ⟨rfl, by simpa using hc⟩))
    · cases hk
  · next c _ =>
    split at hk
    · next hc => exact .inr (.inl ⟨rfl, hc⟩)
    · cases hk
  · exact .inr (.inr (.inr rfl))
  · next c _ _ _ _ =>
    split at hk
    · next hc => exact .inl hc
    · cases hk
  · cases hk

theorem next_of_not_beginsConstruct (h : ¬ BeginsConstruct r) :
    Token.next '<' r = (⟨.text, ['<']⟩, r) := by
  cases hk : Token.bracketed? r with
  | none =>
    have hcomment : "!--".toList.isPrefixOf r = false := by
      rw [← Bool.not_eq_true, List.isPrefixOf_iff_prefix]
      exact fun hp ↦ h (.inl hp)
    simpa using Token.nextIs_bracket hcomment hk [] stops_nil
  | some kind =>
    have hr : '>' ∉ r := fun hr ↦ h (beginsConstruct_of_bracketed? hk hr)
    exact next_of_open_bracket hk hr

theorem events_bracket (h : ¬ BeginsConstruct r) :
    events ('<' :: r) = .text (Reference.decode ['<']) :: events r := by
  have hnext := next_of_not_beginsConstruct h
  rw [events_cons (by rw [hnext]; rfl), hnext]
  rfl

/-! ## All of the text -/

theorem Reference.decode_ne_nil (h : s ≠ []) : Reference.decode s ≠ [] := by
  fun_cases Reference.decode s with
  | case1 => exact absurd rfl h
  | case2 => simp
  | case3 => simp
  | case4 => simp

/-- A reference does not reach over an opening bracket. -/
theorem Reference.decode_append_of_stops (hr : Stops (· != '<') r) (s : Text) :
    Reference.decode (s ++ r) = Reference.decode s ++ Reference.decode r := by
  refine Reference.decode_append (.inr ?_)
  rcases eq_nil_or_bracket_of_stops hr with rfl | ⟨r, rfl⟩
  · simp
  · simp [Reference.Continues]

/-- The first token is a text, and the rest is decoded apart from it. -/
theorem IsStray.exists_text (h : IsStray (c :: r)) :
    ∃ t rest, c :: r = t ++ rest ∧ t ≠ [] ∧
      events (c :: r) = .text (Reference.decode t) :: events rest ∧
      Reference.decode (c :: r) = Reference.decode t ++ Reference.decode rest := by
  by_cases hc : c = '<'
  · subst hc
    refine ⟨['<'], r, rfl, by simp, events_bracket (h r List.suffix_rfl), ?_⟩
    rw [Reference.decode_cons_of_ne (by decide), Reference.decode_cons_of_ne (by decide),
      Reference.decode_nil]
    rfl
  · have hsplit : c :: r = c :: r.takeWhile (· != '<') ++ r.dropWhile (· != '<') := by
      rw [List.cons_append, List.takeWhile_append_dropWhile]
    have hstops := stops_dropWhile (· != '<') r
    have hbracket : '<' ∉ c :: r.takeWhile (· != '<') := by
      rw [List.mem_cons, not_or]
      exact ⟨Ne.symm hc, fun hm ↦ by simpa using List.mem_takeWhile_imp hm⟩
    refine ⟨_, _, hsplit, by simp, ?_, ?_⟩
    · conv_lhs => rw [hsplit]
      exact events_text (by simp) hbracket hstops
    · conv_lhs => rw [hsplit]
      exact Reference.decode_append_of_stops hstops _

/-- A text whose brackets begin no construct is read as texts, none of them empty, and none of it is
lost: together they are what the text is decoded to as a whole. -/
theorem events_of_isStray (h : IsStray s) :
    ∃ ts : List Text, events s = ts.map Event.text ∧ (∀ t ∈ ts, t ≠ []) ∧
      ts.flatten = Reference.decode s := by
  induction hn : s.length using Nat.strong_induction_on generalizing s with
  | _ n ih =>
    cases s with
    | nil => exact ⟨[], events_nil, by simp, Reference.decode_nil.symm⟩
    | cons c r =>
      obtain ⟨t, rest, hsplit, ht, hevents, hdecode⟩ := h.exists_text
      have hrest : IsStray rest := h.of_suffix ⟨t, hsplit.symm⟩
      have hlength : rest.length < n := by
        have := List.length_pos_iff.mpr ht
        rw [← hn, hsplit, List.length_append]
        omega
      obtain ⟨ts, hts, hne, hflatten⟩ := ih _ hlength hrest rfl
      refine ⟨Reference.decode t :: ts, ?_, ?_, ?_⟩
      · rw [hevents, hts, List.map_cons]
      · exact List.forall_mem_cons.mpr ⟨Reference.decode_ne_nil ht, hne⟩
      · rw [List.flatten_cons, hflatten, hdecode]

/-- A comparison, a reference next to brackets, and a tag and a comment that were begun. -/
theorem events_of_isStray_comparison :
    let s := "a > 1 <&lt;<< b </ i <!- <p".toList
    IsStray s ∧ ∃ ts : List Text, events s = ts.map Event.text ∧ (∀ t ∈ ts, t ≠ []) ∧
      ts.flatten = Reference.decode s := by
  intro s
  have hs : IsStray s := by decide
  exact ⟨hs, events_of_isStray hs⟩

end Typings.Markup
