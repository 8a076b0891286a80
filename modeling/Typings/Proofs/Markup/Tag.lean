import Typings.Markup.Tag
import Typings.Proofs.Markup.Reference

/-!
# Tags as they may be written

An attribute has many spellings: in either kind of quotes, without quotes or, with the empty value,
without a value; with its name in any letter case; with blanks around the equals sign.  The
attributes of a tag are read back from any sequence of spellings (`attributes_of_written`), and so
is the tag (`startEvent_of_written`, `endEvent_of_blank`).
-/

namespace Typings.Markup

open Text

/-! ## Descriptions -/

/-- An attribute name may hold all but blanks, quotes, equals signs, slashes and closing
brackets. -/
def Attribute.IsName (w : Text) : Prop := w ≠ [] ∧ ∀ c ∈ w, Tag.isAttributeNameChar c = true

instance (w : Text) : Decidable (Attribute.IsName w) :=
  decidable_of_iff (w ≠ [] ∧ w.all Tag.isAttributeNameChar = true) (by simp [Attribute.IsName])

/-- The text writes the attribute. -/
inductive Attribute.Written : Attribute → Text → Prop
  | quoted {quote : Char} {w before after value t : Text} : quote = '"' ∨ quote = '\'' →
    IsName w → isBlankText before = true → isBlankText after = true →
    Reference.Encodes ['<', '>', quote] value t →
      Written ⟨toLower w, value⟩ (w ++ before ++ '=' :: after ++ quote :: t ++ [quote])
  | unquoted {w before after value t : Text} :
    IsName w → isBlankText before = true → isBlankText after = true →
    value ≠ [] → (∀ c ∈ value, Tag.isUnquotedChar c = true) → Reference.Encodes [] value t →
      Written ⟨toLower w, value⟩ (w ++ before ++ '=' :: after ++ t)
  | bare {w : Text} : IsName w → Written ⟨toLower w, []⟩ w

namespace Tag

/-- The text writes attributes, each behind blanks, and what may stand between the last one and the
closing bracket of a tag: blanks, and a slash behind blanks. -/
inductive AttributesWritten : List Attribute → Text → Prop
  | close {blank slash tail : Text} : isBlankText blank = true → isBlankText tail = true →
    slash = [] ∨ slash = ['/'] ∧ blank ≠ [] → AttributesWritten [] (blank ++ slash ++ tail)
  | cons {a : Attribute} {as : List Attribute} {blank t rest : Text} :
    isBlankText blank = true → blank ≠ [] → a.Written t → AttributesWritten as rest →
      AttributesWritten (a :: as) (blank ++ t ++ rest)

/-- A tag name starts with a letter and goes on up to a blank, a slash or a closing bracket. -/
def IsName (w : Text) : Prop :=
  w.head?.any isLetter = true ∧ ∀ c ∈ w, isNameChar c = true ∧ c ≠ '>'

instance (w : Text) : Decidable (IsName w) :=
  decidable_of_iff (w.head?.any isLetter = true ∧ w.all (fun c ↦ isNameChar c ∧ c ≠ '>') = true)
    (by simp [IsName])

variable {c quote : Char} {s w t v value before after blank rest : Text} {a : Attribute}
variable {as : List Attribute}

/-! ## Classes of characters -/

theorem isAttributeNameChar_of_isBlank (h : isBlank c = true) : isAttributeNameChar c = false := by
  simp [isAttributeNameChar, h]

theorem isUnquotedChar_of_isBlank (h : isBlank c = true) : isUnquotedChar c = false := by
  simp [isUnquotedChar, h]

theorem isNameChar_of_isBlank (h : isBlank c = true) : isNameChar c = false := by
  simp [isNameChar, h]

theorem isBlank_of_isAttributeNameChar (h : isAttributeNameChar c = true) : isBlank c = false :=
  isBlank_eq_false isAttributeNameChar_of_isBlank h

theorem isBlank_of_isUnquotedChar (h : isUnquotedChar c = true) : isBlank c = false :=
  isBlank_eq_false isUnquotedChar_of_isBlank h

theorem isUnquotedChar_of_isReferenceChar (h : Reference.isReferenceChar c = true) :
    isUnquotedChar c = true :=
  Text.of_ascii (P := fun c ↦ Reference.isReferenceChar c = true → isUnquotedChar c = true)
    (by decide) (Reference.toNat_lt_of_isReferenceChar h) h

/-! ## Reading a value -/

theorem quoted?_append (h : quote ∉ t) (rest : Text) :
    quoted? quote (t ++ quote :: rest) = some (t, rest) := by
  have ht := bne_of_notMem h
  have hs : Stops (· != quote) (quote :: rest) := by simp
  rw [quoted?, dropWhile_append_of_stops ht hs, takeWhile_append_of_stops ht hs]

theorem trimStart_blank_append_cons (hb : isBlankText blank = true) (hc : isBlank c = false)
    (s : Text) : trimStart (blank ++ c :: s) = c :: s := by
  rw [trimStart_blank_append hb, trimStart_of_stops (stops_cons.mpr hc)]

theorem value?_quoted (hq : quote = '"' ∨ quote = '\'') (hb : isBlankText before = true)
    (ha : isBlankText after = true) (ht : quote ∉ t) (rest : Text) :
    value? (before ++ '=' :: (after ++ quote :: (t ++ quote :: rest))) = some (t, rest) := by
  rw [value?, trimStart_blank_append_cons hb (by decide)]
  rcases hq with rfl | rfl
  · simp only [trimStart_blank_append_cons ha (c := '"') (by decide), quoted?_append ht]
  · simp only [trimStart_blank_append_cons ha (c := '\'') (by decide), quoted?_append ht]

theorem value?_unquoted (hb : isBlankText before = true) (ha : isBlankText after = true)
    (hne : t ≠ []) (ht : ∀ c ∈ t, isUnquotedChar c = true) (hs : Stops isUnquotedChar rest) :
    value? (before ++ '=' :: (after ++ (t ++ rest))) = some (t, rest) := by
  cases t with
  | nil => exact absurd rfl hne
  | cons c t =>
    have hc : isUnquotedChar c = true := ht c List.mem_cons_self
    have hblank : isBlank c = false := isBlank_of_isUnquotedChar hc
    rw [value?, trimStart_blank_append_cons hb (by decide)]
    simp only [List.cons_append, trimStart_blank_append_cons ha hblank]
    split
    · next e =>
      rw [(List.cons.inj e).1] at hc
      cases hc
    · next e =>
      rw [(List.cons.inj e).1] at hc
      cases hc
    · rw [← List.cons_append, takeWhile_append_of_stops ht hs, dropWhile_append_of_stops ht hs]
      rfl

/-- Nothing is read as a value where no equals sign follows. -/
theorem value?_eq_none (h : (trimStart s).head? ≠ some '=') : value? s = none := by
  unfold value?
  split
  · next e => simp [e] at h
  · rfl

/-! ## Reading attributes -/

theorem attributes_eq_nil (h : ∀ c ∈ s, isAttributeNameChar c = false) : attributes s = [] := by
  have hs : s.dropWhile (!isAttributeNameChar ·) = [] :=
    List.dropWhile_eq_nil_iff.mpr fun c hc ↦ by simp [h c hc]
  rw [attributes.eq_1]
  split
  · rfl
  · next e =>
    rw [hs] at e
    cases e

/-- An attribute is read from the first character that its name may hold. -/
theorem attributes_of_dropWhile (h : s.dropWhile (!isAttributeNameChar ·) = c :: rest) :
    attributes s =
      match value? (rest.dropWhile isAttributeNameChar) with
      | some (v, r) =>
        ⟨toLower (c :: rest.takeWhile isAttributeNameChar), Reference.decode v⟩ :: attributes r
      | none =>
        ⟨toLower (c :: rest.takeWhile isAttributeNameChar), []⟩ ::
          attributes (rest.dropWhile isAttributeNameChar) := by
  rw [attributes.eq_1]
  split
  · next e =>
    rw [h] at e
    cases e
  · next d r e =>
    rw [h] at e
    cases e
    split
    · next e => simp only [e]
    · next e => simp only [e]

theorem attributes_of_name (hb : isBlankText blank = true) (hw : Attribute.IsName w)
    (hs : Stops isAttributeNameChar rest) :
    attributes (blank ++ w ++ rest) =
      match value? rest with
      | some (v, r) => ⟨toLower w, Reference.decode v⟩ :: attributes r
      | none => ⟨toLower w, []⟩ :: attributes rest := by
  obtain ⟨hne, hw⟩ := hw
  cases w with
  | nil => exact absurd rfl hne
  | cons c w =>
    obtain ⟨hc, hw⟩ := List.forall_mem_cons.mp hw
    have hdrop : (blank ++ (c :: w) ++ rest).dropWhile (!isAttributeNameChar ·) =
        c :: (w ++ rest) := by
      rw [List.append_assoc]
      refine dropWhile_append_of_stops (fun d hd ↦ ?_) (by simp [hc])
      simp [isAttributeNameChar_of_isBlank (isBlankText_iff.mp hb d hd)]
    rw [attributes_of_dropWhile hdrop, dropWhile_append_of_stops hw hs,
      takeWhile_append_of_stops hw hs]

/-! ## What is written -/

theorem stops_blank_append_of_ne_nil {p : Char → Bool} (hp : ∀ {c}, isBlank c = true → p c = false)
    (hb : isBlankText blank = true) (hne : blank ≠ []) (s : Text) : Stops p (blank ++ s) := by
  cases blank with
  | nil => exact absurd rfl hne
  | cons c blank => exact stops_cons.mpr (hp (isBlankText_iff.mp hb c List.mem_cons_self))

/-- Blanks stop a class that holds no blank, and so does what is behind them if there are none. -/
theorem stops_blank_append {p : Char → Bool} (hp : ∀ {c}, isBlank c = true → p c = false)
    (hb : isBlankText blank = true) (hs : Stops p s) : Stops p (blank ++ s) := by
  by_cases hne : blank = []
  · rwa [hne, List.nil_append]
  · exact stops_blank_append_of_ne_nil hp hb hne s

theorem isUnquotedChar_of_encodes (hv : ∀ c ∈ value, isUnquotedChar c = true)
    (h : Reference.Encodes [] value t) : ∀ c ∈ t, isUnquotedChar c = true := by
  intro c hc
  rcases Reference.mem_of_encodes h hc with hr | ⟨hc, -⟩
  · exact isUnquotedChar_of_isReferenceChar hr
  · exact hv c hc

theorem exists_name_of_written (h : a.Written t) : ∃ w r, Attribute.IsName w ∧ t = w ++ r := by
  cases h with
  | quoted _ hw => exact ⟨_, _, hw, by simp only [List.append_assoc]; rfl⟩
  | unquoted hw => exact ⟨_, _, hw, by simp only [List.append_assoc]; rfl⟩
  | bare hw => exact ⟨_, [], hw, (List.append_nil _).symm⟩

theorem bracket_notMem_of_isBlankText (hb : isBlankText blank = true) : '>' ∉ blank :=
  notMem_of_isBlankText hb rfl

theorem bracket_notMem_of_isName (hw : Attribute.IsName w) : '>' ∉ w := by
  intro h
  have : isAttributeNameChar '>' = true := hw.2 _ h
  cases this

theorem bracket_notMem_of_written (h : a.Written t) : '>' ∉ t := by
  cases h with
  | @quoted quote w before after value t hq hw hb ha he =>
    have hv := Reference.notMem_of_encodes he (x := '>') (by simp) (by decide)
    have hq' : '>' ≠ quote := by rcases hq with rfl | rfl <;> decide
    simp [bracket_notMem_of_isName hw, bracket_notMem_of_isBlankText hb,
      bracket_notMem_of_isBlankText ha, hv, hq']
  | @unquoted w before after value t hw hb ha _ hv he =>
    have hv' : '>' ∉ t := fun h ↦ by
      have : isUnquotedChar '>' = true := isUnquotedChar_of_encodes hv he _ h
      cases this
    simp [bracket_notMem_of_isName hw, bracket_notMem_of_isBlankText hb,
      bracket_notMem_of_isBlankText ha, hv']
  | bare hw => exact bracket_notMem_of_isName hw

theorem bracket_notMem_of_attributesWritten (h : AttributesWritten as t) : '>' ∉ t := by
  induction h with
  | @close blank slash tail hb ht hs =>
    have hslash : '>' ∉ slash := by rcases hs with rfl | ⟨rfl, -⟩ <;> decide
    simp [bracket_notMem_of_isBlankText hb, bracket_notMem_of_isBlankText ht, hslash]
  | cons hb _ ha _ ih =>
    simp [bracket_notMem_of_isBlankText hb, bracket_notMem_of_written ha, ih]

/-- Attributes stand behind blanks, so that no class without blanks goes on into them. -/
theorem stops_of_attributesWritten {p : Char → Bool} (hp : ∀ {c}, isBlank c = true → p c = false)
    (h : AttributesWritten as t) : Stops p t := by
  cases h with
  | @close blank slash tail hb ht hs =>
    rcases hs with rfl | ⟨-, hne⟩
    · rw [List.append_nil]
      exact stops_blank_append hp hb (by simpa using stops_blank_append hp ht stops_nil)
    · rw [List.append_assoc]
      exact stops_blank_append_of_ne_nil hp hb hne _
  | cons hb hne _ _ =>
    rw [List.append_assoc]
    exact stops_blank_append_of_ne_nil hp hb hne _

/-- The attribute in front of written attributes takes no value from them. -/
theorem value?_of_attributesWritten (h : AttributesWritten as t) : value? t = none := by
  refine value?_eq_none ?_
  cases h with
  | @close blank slash tail hb ht hs =>
    rw [List.append_assoc, trimStart_blank_append hb]
    rcases hs with rfl | ⟨rfl, -⟩
    · rw [List.nil_append, trimStart, List.dropWhile_eq_nil_iff.mpr (isBlankText_iff.mp ht)]
      simp
    · rw [List.singleton_append, trimStart_of_stops (stops_cons.mpr (by decide))]
      simp
  | @cons _ _ blank t rest hb _ ha _ =>
    obtain ⟨w, r, ⟨hne, hw⟩, rfl⟩ := exists_name_of_written ha
    cases w with
    | nil => exact absurd rfl hne
    | cons c w =>
      have hc : isAttributeNameChar c = true := hw c List.mem_cons_self
      rw [List.append_assoc, List.cons_append, List.cons_append,
        trimStart_blank_append_cons hb (isBlank_of_isAttributeNameChar hc)]
      rintro ⟨⟩
      cases hc

/-! ## Reading what is written -/

/-- A written attribute is read, and what follows it is left. -/
theorem attributes_of_attributeWritten (hb : isBlankText blank = true) (ha : a.Written t)
    (hr : AttributesWritten as rest) :
    attributes (blank ++ t ++ rest) = a :: attributes rest := by
  cases ha with
  | @quoted q w before after value t hq hw hbefore hafter he =>
    have hs : Stops isAttributeNameChar (before ++ '=' :: (after ++ q :: (t ++ q :: rest))) :=
      stops_blank_append isAttributeNameChar_of_isBlank hbefore (stops_cons.mpr (by decide))
    have hq' : q ∉ t := by
      refine Reference.notMem_of_encodes he (by simp) ?_
      rcases hq with rfl | rfl <;> decide
    have e : blank ++ (w ++ before ++ '=' :: after ++ q :: t ++ [q]) ++ rest =
        blank ++ w ++ (before ++ '=' :: (after ++ q :: (t ++ q :: rest))) := by simp
    rw [e, attributes_of_name hb hw hs, value?_quoted hq hbefore hafter hq']
    simp only [Reference.decode_encodes he]
  | @unquoted w before after value t hw hbefore hafter hne hv he =>
    have hs : Stops isAttributeNameChar (before ++ '=' :: (after ++ (t ++ rest))) :=
      stops_blank_append isAttributeNameChar_of_isBlank hbefore (stops_cons.mpr (by decide))
    have e : blank ++ (w ++ before ++ '=' :: after ++ t) ++ rest =
        blank ++ w ++ (before ++ '=' :: (after ++ (t ++ rest))) := by simp
    rw [e, attributes_of_name hb hw hs,
      value?_unquoted hbefore hafter (Reference.ne_nil_of_encodes he hne)
        (isUnquotedChar_of_encodes hv he) (stops_of_attributesWritten isUnquotedChar_of_isBlank hr)]
    simp only [Reference.decode_encodes he]
  | bare hw =>
    rw [attributes_of_name hb hw (stops_of_attributesWritten isAttributeNameChar_of_isBlank hr),
      value?_of_attributesWritten hr]

/-- Attributes are read back, however they are written. -/
theorem attributes_of_written (h : AttributesWritten as t) : attributes t = as := by
  induction h with
  | close hb ht hs =>
    refine attributes_eq_nil fun c hc ↦ ?_
    rw [List.mem_append, List.mem_append] at hc
    rcases hc with (hc | hc) | hc
    · exact isAttributeNameChar_of_isBlank (isBlankText_iff.mp hb c hc)
    · rcases hs with rfl | ⟨rfl, -⟩
      · cases hc
      · rw [List.mem_singleton.mp hc]
        decide
    · exact isAttributeNameChar_of_isBlank (isBlankText_iff.mp ht c hc)
  | cons hb _ ha hr ih => rw [attributes_of_attributeWritten hb ha hr, ih]

theorem name_append (hw : IsName w) (hs : Stops isNameChar s) : name (w ++ s) = toLower w := by
  rw [name, takeWhile_append_of_stops (fun c hc ↦ (hw.2 c hc).1) hs]

theorem startEvent_of_written (hw : IsName w) (h : AttributesWritten as t) :
    startEvent (w ++ t) = .startTag (toLower w) as := by
  have hs := stops_of_attributesWritten isNameChar_of_isBlank h
  rw [startEvent, name_append hw hs, dropWhile_append_of_stops (fun c hc ↦ (hw.2 c hc).1) hs,
    attributes_of_written h]

theorem endEvent_of_blank (hw : IsName w) (hb : isBlankText blank = true) :
    endEvent (w ++ blank) = .endTag (toLower w) := by
  rw [endEvent, name_append hw]
  simpa using stops_blank_append isNameChar_of_isBlank hb stops_nil

end Tag

end Typings.Markup
