import Typings.Proofs.Markup.Local
import Typings.Proofs.Markup.Written

/-!
# Bodies of script and style elements

The body of such an element is one text, up to the first `</` with the name behind it
(`events_openTag_append`).  That need not be the end tag of the element, as the name may go on.  So a
body is opaque up to its end tag just if nothing in it starts like that (`isOpaque_iff`).
-/

namespace Typings.Markup

open Text

variable {a b s t name body rest : Text}

/-! ## Descriptions -/

/-- The text starts with an end tag of this name: the name is in any letter case, and behind it is
what ends a name in a tag. -/
def StartsEndTag (name s : Text) : Prop :=
  ∃ w c rest, s = "</".toList ++ w ++ c :: rest ∧ eqIgnoringCase w name = true ∧
    (isBlank c = true ∨ c = '/' ∨ c = '>')

def HasEndTag (name s : Text) : Prop := ∃ t, t <:+ s ∧ StartsEndTag name t

def openTag (name : Text) : Text := "<".toList ++ name ++ ">".toList

def closeTag (name : Text) : Text := "</".toList ++ name ++ ">".toList

/-- Between the tags of an element its body is one text, whatever it holds. -/
def IsOpaque (a name s b : Text) : Prop :=
  events (a ++ openTag name ++ s ++ closeTag name ++ b) =
    events a ++ .startTag name [] :: (textEvents s ++ .endTag name :: events b)

/-! ## Where a body ends -/

namespace Token

theorem eq_script_or_eq_style (h : isRawElement name = true) :
    name = "script".toList ∨ name = "style".toList := by
  simpa only [isRawElement, Bool.or_eq_true, beq_iff_eq] using h

theorem isName_of_isRawElement (h : isRawElement name = true) : Tag.IsName name := by
  rcases eq_script_or_eq_style h with rfl | rfl <;> decide

theorem toLower_of_isRawElement (h : isRawElement name = true) : toLower name = name := by
  rcases eq_script_or_eq_style h with rfl | rfl <;> decide

theorem length_of_eqIgnoringCase {w : Text} (h : eqIgnoringCase w name = true) :
    name.length + 2 = ("</".toList ++ w).length := by
  have hlength := congrArg List.length (eq_of_beq h)
  simp only [toLower, List.length_map] at hlength
  simp [hlength]

/-- What ends a raw body starts like an end tag. -/
theorem closesRaw_iff : closesRaw name s = true ↔
    ∃ w rest, s = "</".toList ++ w ++ rest ∧ eqIgnoringCase w name = true := by
  constructor
  · intro h
    have hlower : (s.take (name.length + 2)).map Char.toLower = '<' :: '/' :: toLower name :=
      eq_of_beq h
    obtain ⟨x, l, htake, hx, hl⟩ := List.map_eq_cons_iff.mp hlower
    obtain ⟨y, w, rfl, hy, hw⟩ := List.map_eq_cons_iff.mp hl
    obtain rfl := eq_of_toLower_eq hx (by decide)
    obtain rfl := eq_of_toLower_eq hy (by decide)
    refine ⟨w, s.drop (name.length + 2), ?_, beq_iff_eq.mpr hw⟩
    conv_lhs => rw [← List.take_append_drop (name.length + 2) s, htake]
    rfl
  · rintro ⟨w, rest, rfl, hw⟩
    rw [closesRaw, length_of_eqIgnoringCase hw, List.take_left]
    exact beq_iff_eq.mpr (congrArg ('<' :: '/' :: ·) (eq_of_beq hw))

theorem closesRaw_closeTag (name b : Text) : closesRaw name (closeTag name ++ b) = true :=
  closesRaw_iff.mpr ⟨name, ">".toList ++ b, List.append_assoc _ _ _, beq_self_eq_true _⟩

theorem startsEndTag_iff : StartsEndTag name s ↔ closesRaw name s = true ∧
    ∃ c ∈ s[name.length + 2]?, isBlank c = true ∨ c = '/' ∨ c = '>' := by
  constructor
  · rintro ⟨w, c, rest, rfl, hw, hc⟩
    refine ⟨closesRaw_iff.mpr ⟨w, c :: rest, rfl, hw⟩, c, ?_, hc⟩
    rw [length_of_eqIgnoringCase hw, List.getElem?_append_right (Nat.le_refl _), Nat.sub_self]
    rfl
  · rintro ⟨h, c, hget, hc⟩
    obtain ⟨w, rest, rfl, hw⟩ := closesRaw_iff.mp h
    rw [length_of_eqIgnoringCase hw, List.getElem?_append_right (Nat.le_refl _), Nat.sub_self,
      ← List.head?_eq_getElem?] at hget
    obtain ⟨rest, rfl⟩ := List.head?_eq_some_iff.mp hget
    exact ⟨w, c, rest, rfl, hw, hc⟩

instance (name s : Text) : Decidable (StartsEndTag name s) :=
  decidable_of_iff
    (closesRaw name s = true ∧
      s[name.length + 2]?.any (fun c ↦ isBlank c || c == '/' || c == '>') = true)
    (by simp [startsEndTag_iff, Option.any_eq_true, or_assoc])

instance (name s : Text) : Decidable (HasEndTag name s) :=
  decidable_of_iff (∃ t ∈ s.tails, StartsEndTag name t) (by simp only [List.mem_tails, HasEndTag])

/-- The name of such an element is a letter and more, in any letter case. -/
theorem exists_letter_of_eqIgnoringCase {w : Text} (hname : isRawElement name = true)
    (h : eqIgnoringCase w name = true) : ∃ c w', w = c :: w' ∧ isLetter c = true := by
  obtain ⟨d, name', hd, hletter⟩ : ∃ d name', name = d :: name' ∧ isLetter d = true := by
    rcases eq_script_or_eq_style hname with rfl | rfl <;> exact ⟨'s', _, rfl, rfl⟩
  have hlower : w.map Char.toLower = d :: name' := by
    rw [← hd, ← toLower_of_isRawElement hname]
    exact eq_of_beq h
  obtain ⟨c, w', rfl, hc, -⟩ := List.map_eq_cons_iff.mp hlower
  refine ⟨c, w', rfl, ?_⟩
  rw [← isLetter_toLower, hc, hletter]

end Token

open Token

theorem exists_endTag_of_closesRaw (hname : isRawElement name = true)
    (h : closesRaw name s = true) (hs : '>' ∈ s) : ∃ n es, events s = .endTag n :: es := by
  obtain ⟨w, r, rfl, hw⟩ := closesRaw_iff.mp h
  obtain ⟨c, w, rfl, hc⟩ := exists_letter_of_eqIgnoringCase hname hw
  have hr : '>' ∈ '/' :: c :: (w ++ r) := (List.mem_cons.mp hs).resolve_left (by decide)
  obtain ⟨u, rest, hsplit, hu⟩ := List.eq_append_cons_of_mem hr
  have hk : bracketed? (u ++ '>' :: rest) = some .endTag := by
    rw [← hsplit]
    exact if_pos hc
  have e : "</".toList ++ c :: w ++ r = '<' :: (u ++ '>' :: rest) := congrArg ('<' :: ·) hsplit
  rw [e, events_bracketed hk hu rfl]
  exact ⟨_, events rest, rfl⟩

/-! ## Elements with raw bodies -/

theorem startEvent_of_isRawElement (hname : isRawElement name = true) :
    Tag.startEvent name = .startTag name [] := by
  have hclose : Tag.AttributesWritten [] ([] ++ [] ++ []) := .close rfl rfl (.inl rfl)
  have hevent := Tag.startEvent_of_written (isName_of_isRawElement hname) hclose
  rwa [List.append_nil, List.append_nil, List.append_nil, toLower_of_isRawElement hname] at hevent

theorem opensRaw?_openTag (hname : isRawElement name = true) :
    opensRaw? ⟨.startTag, '<' :: (name ++ ['>'])⟩ = some name := by
  have hself : Tag.name name = name := by
    rw [← List.append_nil name, Tag.name_append (isName_of_isRawElement hname) stops_nil,
      List.append_nil, toLower_of_isRawElement hname]
  rw [opensRaw?, inner_startTag, hself, if_pos hname]

theorem events_openTag_append (hname : isRawElement name = true)
    (h : IsCut (closesRaw name) body rest) :
    events (openTag name ++ (body ++ rest)) =
      .startTag name [] :: (textEvents body ++ events rest) := by
  have hgt : '>' ∉ name := fun hm ↦ ((isName_of_isRawElement hname).2 _ hm).2 rfl
  have hk : bracketed? (name ++ '>' :: (body ++ rest)) = some .startTag := by
    rcases eq_script_or_eq_style hname with rfl | rfl <;> rfl
  have hnext : next '<' (name ++ '>' :: (body ++ rest)) =
      (⟨.startTag, '<' :: (name ++ ['>'])⟩, body ++ rest) := afterBracket_of_bracketed? hk hgt
  have hopens : opensRaw? (next '<' (name ++ '>' :: (body ++ rest))).1 = some name := by
    rw [hnext, opensRaw?_openTag hname]
  have hevent : event? ⟨.startTag, '<' :: (name ++ ['>'])⟩ = some (.startTag name []) := by
    rw [event?, inner_startTag, startEvent_of_isRawElement hname]
  have e : openTag name ++ (body ++ rest) = '<' :: (name ++ '>' :: (body ++ rest)) := by
    simp [openTag]
  rw [e, events, tokens_of_raw hopens, hnext, rawBody, breakAt_of_isCut h, List.cons_append,
    List.filterMap_cons_some hevent, List.filterMap_append, events]
  cases body <;> rfl

/-- In front of the end tag a body goes on to there unless something in it starts like an end
tag. -/
theorem isCut_closeTag (hname : isRawElement name = true)
    (h : ∀ t, t <:+ s → closesRaw name t = false) (b : Text) :
    IsCut (closesRaw name) s (closeTag name ++ b) := by
  refine ⟨.inr (closesRaw_closeTag name b), fun v hv hs ↦ ?_⟩
  have hstops : Stops (· != '<') (closeTag name ++ b) := stops_cons.mpr rfl
  rw [closesRaw_append (bracket_notMem_of_isRawElement hname) hstops hv]
  exact h v hs

theorem events_closeTag_append (hname : isRawElement name = true) (b : Text) :
    events (closeTag name ++ b) = .endTag name :: events b := by
  have hblank : isBlankText [] = true := rfl
  have h := events_endTag_append (isName_of_isRawElement hname) hblank b
  rwa [List.append_nil, toLower_of_isRawElement hname] at h

theorem events_element (ha : IsClosed a) (hname : isRawElement name = true)
    (h : IsCut (closesRaw name) body rest) :
    events (a ++ openTag name ++ (body ++ rest)) =
      events a ++ .startTag name [] :: (textEvents body ++ events rest) := by
  have hstops : Stops (· != '<') (openTag name ++ (body ++ rest)) := stops_cons.mpr rfl
  rw [List.append_assoc, ha.events_append hstops, events_openTag_append hname h]

theorem isOpaque_of_forall (ha : IsClosed a) (hname : isRawElement name = true)
    (h : ∀ t, t <:+ s → closesRaw name t = false) (b : Text) : IsOpaque a name s b := by
  rw [IsOpaque, List.append_assoc, List.append_assoc, events_element ha hname,
    events_closeTag_append hname]
  exact isCut_closeTag hname h b

/-- If something in a body starts like an end tag, the body is cut there and not in front of its own
end tag. -/
theorem exists_isCut_of_closesRaw (hname : isRawElement name = true) (ht : t <:+ s)
    (h : closesRaw name t = true) (b : Text) :
    ∃ body rest, s = body ++ rest ∧ rest ≠ [] ∧
      IsCut (closesRaw name) body (rest ++ (closeTag name ++ b)) := by
  have hstops : Stops (· != '<') (closeTag name ++ b) := stops_cons.mpr rfl
  have hne : t ≠ [] := by
    rintro rfl
    exact absurd (length_le_of_closesRaw h) (Nat.not_succ_le_zero _)
  have hrest : (breakAt (closesRaw name) s).2 ≠ [] := by
    intro hnil
    rw [stop_of_not_cut hnil ht hne] at h
    cases h
  have hbreak := breakAt_append_of_cut
    (fun v ↦ closesRaw_append (bracket_notMem_of_isRawElement hname) hstops) hrest
  have hcut := isCut_breakAt (closesRaw name) (s ++ (closeTag name ++ b))
  rw [hbreak] at hcut
  exact ⟨_, _, (breakAt_append _ s).symm, hrest, hcut⟩

theorem not_isOpaque (ha : IsClosed a) (hname : isRawElement name = true) (ht : t <:+ s)
    (h : closesRaw name t = true) (b : Text) : ¬ IsOpaque a name s b := by
  obtain ⟨body, rest, rfl, hrest, hcut⟩ := exists_isCut_of_closesRaw hname ht h b
  intro hopaque
  have e : a ++ openTag name ++ (body ++ rest) ++ closeTag name ++ b =
      a ++ openTag name ++ (body ++ (rest ++ (closeTag name ++ b))) := by simp
  rw [IsOpaque, e, events_element ha hname hcut,
    textEvents_of_ne_nil (List.append_ne_nil_of_right_ne_nil body hrest)] at hopaque
  have htext := (List.cons.inj (List.append_cancel_left hopaque)).2
  by_cases hbody : body = []
  · -- the element closes at once, so that a tag comes next and no text
    have hgt : '>' ∈ rest ++ (closeTag name ++ b) := by simp [closeTag]
    have hcloses := hcut.stops.resolve_left (List.append_ne_nil_of_left_ne_nil hrest _)
    obtain ⟨n, es, hevents⟩ := exists_endTag_of_closesRaw hname hcloses hgt
    rw [hbody, textEvents_nil, hevents] at htext
    cases htext
  · rw [textEvents_of_ne_nil hbody] at htext
    have hself : body = body ++ rest := Event.text.inj (List.cons.inj htext).1
    exact hrest (List.self_eq_append_right.mp hself)

/-- Behind the start tag of a script or a style comes the text up to the first `</` and the name, and
then what is read from there on.  So a body that an end tag closes is opaque just if nothing in it
starts like that, be it the end tag of another element. -/
theorem isOpaque_iff (ha : IsClosed a) (hname : isRawElement name = true) :
    (∀ body rest, IsCut (closesRaw name) body rest →
      events (a ++ openTag name ++ (body ++ rest)) =
        events a ++ .startTag name [] :: (textEvents body ++ events rest)) ∧
    ∀ s b, IsOpaque a name s b ↔ ∀ t, t <:+ s → closesRaw name t = false := by
  refine ⟨fun body rest h ↦ events_element ha hname h, fun s b ↦ ⟨?_, ?_⟩⟩
  · intro hopaque t ht
    rw [← Bool.not_eq_true]
    exact fun h ↦ not_isOpaque ha hname ht h b hopaque
  · intro h
    exact isOpaque_of_forall ha hname h b

/-- Names that are cut short, starts of rows and comments are all text. -/
theorem isOpaque_iff_row :
    let name := "style".toList
    let s := "td </Styl> <tr class=memitem:x> <!-- </script>".toList
    (IsClosed "<p>".toList ∧ isRawElement name = true ∧
      ∀ t, t <:+ s → closesRaw name t = false) ∧ IsOpaque "<p>".toList name s "<".toList := by
  intro name s
  have ha : IsClosed "<p>".toList := by
    rw [IsClosed]
    decide +kernel
  have hs : ∀ t, t <:+ s → closesRaw name t = false := by
    intro t ht
    have hall : ∀ t ∈ s.tails, closesRaw name t = false := by decide
    exact hall t ((List.mem_tails t s).mpr ht)
  exact ⟨⟨ha, rfl, hs⟩, ((isOpaque_iff ha rfl).2 s _).mpr hs⟩

/-- A body that holds no end tag of its element may still hold one of an element with a longer
name. -/
theorem exists_not_isOpaque :
    ¬ ∀ a name s b, IsClosed a → isRawElement name = true → ¬ HasEndTag name s →
      IsOpaque a name s b := by
  intro hall
  have ha : IsClosed [] := by
    rw [IsClosed]
    decide +kernel
  have hs : ¬ HasEndTag "script".toList "a</scriptx>b".toList := by decide
  have ht : "</scriptx>b".toList <:+ "a</scriptx>b".toList := ⟨['a'], rfl⟩
  exact not_isOpaque ha rfl ht (by decide) "c".toList (hall _ _ _ _ ha rfl hs)

end Typings.Markup
