import Typings.Proofs.Markup.Reference

/-!
# Decoding in one pass

References are told by the characters they consist of, so that none reaches over a cut next to a
character that it cannot have there: the texts on both sides of such a cut are decoded apart
(`decode_append`).  What a reference denotes is not looked at again, so that decoding undoes
escaping (`decode_escape`).  A reference to a number is the character with this code point, or stays
as it is if there is none (`decode_number`).
-/

namespace Typings.Markup.Reference

variable {a b name r s t rest : Text} {c : Char}

/-! ## Descriptions -/

/-- A reference may have the character between its ampersand and its semicolon. -/
def Continues (c : Char) : Prop := c.isAlphanum = true ∨ c = '#'

instance (c : Char) : Decidable (Continues c) :=
  inferInstanceAs (Decidable (c.isAlphanum = true ∨ c = '#'))

/-- No reference goes over from the first text into the second: the first one ends with none of its
characters, or the second one starts with none. -/
def Apart (a b : Text) : Prop :=
  (∀ c ∈ a.getLast?, ¬ Continues c ∧ c ≠ '&') ∨ ∀ c ∈ b.head?, ¬ Continues c ∧ c ≠ ';'

instance (a b : Text) : Decidable (Apart a b) :=
  decidable_of_iff (a.getLast?.all (fun c ↦ ¬ Continues c ∧ c ≠ '&') = true ∨
    b.head?.all (fun c ↦ ¬ Continues c ∧ c ≠ ';') = true) (by simp [Apart, Option.all_eq_true])

/-- The characters that are escaped, with their names. -/
def escapes : List (Char × Text) := [
    ('&', "amp".toList), ('<', "lt".toList), ('>', "gt".toList), ('"', "quot".toList),
    ('\'', "apos".toList), ('\u00A0', "nbsp".toList)]

/-- A character, or the reference to it by name if it has one. -/
def escapeChar (c : Char) : Text :=
  match escapes.lookup c with
  | some name => '&' :: name ++ ";".toList
  | none => [c]

def escape (s : Text) : Text := s.flatMap escapeChar

/-- A letter, and then letters and digits. -/
def IsName (name : Text) : Prop :=
  name.head?.any Text.isLetter = true ∧ ∀ c ∈ name, c.isAlphanum = true

instance (name : Text) : Decidable (IsName name) :=
  decidable_of_iff (name.head?.any Text.isLetter = true ∧ name.all Char.isAlphanum = true)
    (by simp [IsName])

/-- No character has the name. -/
def IsUnknown (name : Text) : Prop := ∀ entry ∈ escapes, entry.2 ≠ name

instance (name : Text) : Decidable (IsUnknown name) :=
  inferInstanceAs (Decidable (∀ entry ∈ escapes, entry.2 ≠ name))

/-- The digits of a base that has at most sixteen, in order of their values. -/
def digitsOf (base : Nat) : Text := "0123456789abcdef".toList.take base

/-- Some digits of the base, the letters among them in either case. -/
def IsDigits (base : Nat) (digits : Text) : Prop :=
  digits ≠ [] ∧ ∀ d ∈ digits, d.toLower ∈ digitsOf base

instance (base : Nat) (digits : Text) : Decidable (IsDigits base digits) :=
  decidable_of_iff (digits ≠ [] ∧ digits.all (fun d ↦ d.toLower ∈ digitsOf base) = true)
    (by simp [IsDigits])

/-- The number that digits denote, the last of which counts least. -/
def valueOf (base : Nat) (digits : Text) : Nat :=
  Nat.ofDigits base (digits.reverse.map fun d ↦ (digitsOf base).idxOf d.toLower)

/-- What stands in front of the digits of a reference, with their base. -/
def marks : List (Text × Nat) := [("&#".toList, 10), ("&#x".toList, 16), ("&#X".toList, 16)]

/-- A reference to a number is the character with this code point.  It stays as it is if there is
none, as the number is one of a surrogate or beyond the last code point, if not beyond 32 bits. -/
structure IsReadAs (reference : Text) (n : Nat) : Prop where
  scalar : n < 0xD800 ∨ 0xDFFF < n ∧ n ≤ 0x10FFFF → ∃ c : Char, c.toNat = n ∧ decode reference = [c]
  other : 0xD800 ≤ n ∧ n ≤ 0xDFFF ∨ 0x10FFFF < n ∨ 2 ^ 32 ≤ n → decode reference = reference

/-! ## Cuts -/

theorem Apart.of_suffix (h : Apart a b) (hr : r <:+ a) : Apart r b := by
  obtain ⟨t, rfl⟩ := hr
  exact h.imp_left fun ha c hc ↦ ha c (List.mem_getLast?_append_of_mem_getLast? hc)

/-- A reference that has begun in front of the cut and ends behind it has characters on both sides
of it. -/
theorem not_apart_of_continues (h : ∀ c ∈ r ++ t, Continues c) (rest : Text) :
    ¬ Apart ('&' :: r) (t ++ ';' :: rest) := by
  rintro (ha | hb)
  · rcases List.eq_nil_or_concat r with rfl | ⟨r, x, rfl⟩
    · exact (ha '&' rfl).2 rfl
    · have hlast : x ∈ ('&' :: r.concat x).getLast? := by
        rw [List.concat_eq_append, ← List.cons_append, List.getLast?_concat]
        rfl
      exact (ha x hlast).1 (h x (by simp))
  · cases t with
    | nil => exact (hb ';' rfl).2 rfl
    | cons x t => exact (hb x rfl).1 (h x (by simp))

theorem read?_append (h : read? s = some (c, rest)) (b : Text) :
    read? (s ++ b) = some (c, rest ++ b) := by
  obtain ⟨body, hd, rfl⟩ := read?_eq_some_iff.mp h
  rw [List.append_assoc, List.cons_append, read?_of_denotes hd]

theorem read?_append_eq_none (h : read? r = none) (hcut : Apart ('&' :: r) b) :
    read? (r ++ b) = none := by
  rw [Option.eq_none_iff_forall_ne_some]
  rintro ⟨c, rest⟩ hread
  obtain ⟨body, hd, e⟩ := read?_eq_some_iff.mp hread
  have hbody : ∀ d ∈ body, Continues d := isAlphanum_or_eq_of_denotes hd
  rcases List.append_eq_append_iff.mp e with ⟨t, rfl, rfl⟩ | ⟨t, rfl, ht⟩
  · exact not_apart_of_continues hbody rest hcut
  · cases t with
    | nil =>
      obtain rfl : ';' :: rest = b := ht
      rw [List.append_nil] at hcut
      exact not_apart_of_continues (t := []) (by rwa [List.append_nil]) rest hcut
    | cons x t =>
      -- the reference ends in front of the cut
      obtain ⟨rfl, -⟩ := List.cons.inj ht
      rw [read?_of_denotes hd] at h
      cases h

/-- Texts are decoded apart if no reference goes over from one into the other. -/
theorem decode_append (h : Apart a b) : decode (a ++ b) = decode a ++ decode b := by
  fun_induction decode a with
  | case1 => rfl
  | case2 r c rest hread ih =>
    obtain ⟨body, -, rfl⟩ := read?_eq_some_iff.mp hread
    have hrest : rest <:+ '&' :: (body ++ ';' :: rest) := ⟨'&' :: body ++ [';'], by simp⟩
    rw [List.cons_append, decode_of_read? (read?_append hread b), ih (h.of_suffix hrest),
      List.cons_append]
  | case3 r hread ih =>
    rw [List.cons_append, decode_of_read?_eq_none (read?_append_eq_none hread h),
      ih (h.of_suffix (List.suffix_cons _ r)), List.cons_append]
  | case4 c r hc ih =>
    rw [List.cons_append, decode_cons_of_ne hc, ih (h.of_suffix (List.suffix_cons c r)),
      List.cons_append]

/-! ## Escaping -/

theorem encodes_escapeChar (c : Char) (h : Encodes [] s t) :
    Encodes [] (c :: s) (escapeChar c ++ t) := by
  unfold escapeChar
  split
  · next name hname =>
    have hentry : (c, name) ∈ escapes := by
      obtain ⟨before, behind, e, -⟩ := List.lookup_eq_some_iff.mp hname
      rw [e]
      exact List.mem_append_right _ List.mem_cons_self
    have hnamed : ∀ entry ∈ escapes, named? entry.2 = some entry.1 := by decide
    have e : '&' :: name ++ ";".toList ++ t = '&' :: name ++ ';' :: t := by simp
    rw [e]
    exact .reference (.named (hnamed _ hentry)) h
  · next hname =>
    have hne : c ≠ '&' := by
      rintro rfl
      cases hname
    exact .plain hne List.not_mem_nil h

theorem encodes_escape (s : Text) : Encodes [] s (escape s) := by
  induction s with
  | nil => exact .nil
  | cons c s ih => exact encodes_escapeChar c ih

theorem decode_escape (s : Text) : decode (escape s) = s := decode_encodes (encodes_escape s)

/-! ## Names that denote nothing -/

theorem decode_append_of_notMem (h : '&' ∉ s) (rest : Text) :
    decode (s ++ rest) = s ++ decode rest := by
  induction s with
  | nil => rfl
  | cons c s ih =>
    rw [List.mem_cons, not_or] at h
    rw [List.cons_append, decode_cons_of_ne (Ne.symm h.1), ih h.2, List.cons_append]

theorem IsUnknown.named?_eq (h : IsUnknown name) : named? name = none := by
  simp only [IsUnknown, escapes, List.forall_mem_cons, List.not_mem_nil, false_implies,
    implies_true, and_true] at h
  obtain ⟨hamp, hlt, hgt, hquot, hapos, hnbsp⟩ := h
  rw [named?, if_neg hamp.symm, if_neg hlt.symm, if_neg hgt.symm, if_neg hquot.symm,
    if_neg hapos.symm, if_neg hnbsp.symm]

theorem read?_of_isUnknown (hname : IsName name) (h : IsUnknown name) (rest : Text) :
    read? (name ++ ';' :: rest) = none := by
  cases name with
  | nil => cases hname.1
  | cons c name =>
    rw [List.cons_append, read?_of_isLetter (by simpa using hname.1), ← List.cons_append,
      body?_append (by decide) (by simp) hname.2]
    simp [h.named?_eq]

/-- A reference to a name that no character has stays as it is, whatever stands around it. -/
theorem decode_of_isUnknown (hname : IsName name) (h : IsUnknown name) (a b : Text) :
    decode (a ++ ('&' :: name ++ ";".toList) ++ b) =
      decode a ++ ('&' :: name ++ ";".toList) ++ decode b := by
  have hamp : '&' ∉ name ++ ";".toList := by
    rw [List.mem_append, not_or]
    exact ⟨fun hm ↦ absurd (hname.2 _ hm) (by decide), by decide⟩
  have hcut : Apart a ('&' :: name ++ ";".toList ++ b) := .inr (by simp [Continues])
  have hreference : decode ('&' :: name ++ ";".toList ++ b) =
      '&' :: name ++ ";".toList ++ decode b := by
    have e : '&' :: name ++ ";".toList ++ b = '&' :: (name ++ ';' :: b) := by simp
    have hrest : name ++ ';' :: b = name ++ ";".toList ++ b := by simp
    rw [e, decode_of_read?_eq_none (read?_of_isUnknown hname h b), hrest,
      decode_append_of_notMem hamp]
    rfl
  rw [List.append_assoc, decode_append hcut, hreference, ← List.append_assoc]

/-! ## Numbers -/

theorem isDigit_of_mem (h : c.toLower ∈ digitsOf 10) : c.isDigit = true := by
  have hdigits : (digitsOf 10).all (fun d ↦ d.isDigit && !Text.isLetter d) = true := by decide
  obtain ⟨hdigit, hletter⟩ : c.toLower.isDigit = true ∧ Text.isLetter c.toLower = false := by
    simpa using List.all_eq_true.mp hdigits _ h
  rwa [Text.eq_of_toLower_eq rfl hletter]

theorem toNat_lt_of_toLower_mem (h : c.toLower ∈ digitsOf 16) : c.toNat < 128 := by
  by_cases hc : Text.isLetter c = true
  · exact Text.toNat_lt_of_isLetter hc
  · have hdigits : (digitsOf 16).all (·.toNat < 128) = true := by decide
    rw [Text.toLower_of_not_isLetter (Bool.not_eq_true _ ▸ hc)] at h
    simpa using List.all_eq_true.mp hdigits c h

theorem isHexDigit_of_mem (h : c.toLower ∈ digitsOf 16) : isHexDigit c = true :=
  Text.of_ascii (P := fun c ↦ c.toLower ∈ digitsOf 16 → isHexDigit c = true) (by decide)
    (toNat_lt_of_toLower_mem h) h

theorem digitValue_toLower (c : Char) : digitValue c.toLower = digitValue c := by
  by_cases hc : Text.isLetter c = true
  · exact Text.of_ascii (P := fun c ↦ Text.isLetter c = true → digitValue c.toLower = digitValue c)
      (by decide) (Text.toNat_lt_of_isLetter hc) hc
  · rw [Text.toLower_of_not_isLetter (Bool.not_eq_true _ ▸ hc)]

theorem digitValue_eq_idxOf {base : Nat} (hbase : base = 10 ∨ base = 16)
    (h : c.toLower ∈ digitsOf base) : digitValue c = (digitsOf base).idxOf c.toLower := by
  have hvalues : (digitsOf base).all (fun d ↦ digitValue d == (digitsOf base).idxOf d) = true := by
    rcases hbase with rfl | rfl <;> decide
  rw [← digitValue_toLower]
  simpa using List.all_eq_true.mp hvalues _ h

theorem number_eq_valueOf {base : Nat} {digits : Text} (hbase : base = 10 ∨ base = 16)
    (h : IsDigits base digits) : number base digits = valueOf base digits := by
  rw [number_eq_ofDigits, valueOf]
  congr 1
  refine List.map_congr_left fun d hd ↦ digitValue_eq_idxOf hbase (h.2 d ?_)
  exact List.mem_reverse.mp hd

/-- What follows the ampersand of a reference to a number is read as the character of this number. -/
theorem read?_number {mark digits : Text} {base : Nat} (hmark : ('&' :: mark, base) ∈ marks)
    (h : IsDigits base digits) :
    read? (mark ++ digits ++ ";".toList) = (scalar? (valueOf base digits)).map (·, []) := by
  simp only [marks, List.mem_cons, List.not_mem_nil, or_false, Prod.mk.injEq] at hmark
  rcases hmark with ⟨hm, rfl⟩ | ⟨hm, rfl⟩ | ⟨hm, rfl⟩
  · obtain rfl := (List.cons.inj hm).2
    rw [← number_eq_valueOf (.inl rfl) h]
    exact read?_digits_decimal h.1 (fun d hd ↦ isDigit_of_mem (h.2 d hd)) []
  · obtain rfl := (List.cons.inj hm).2
    rw [← number_eq_valueOf (.inr rfl) h]
    exact read?_digits_hexadecimal (.inl rfl) h.1 (fun d hd ↦ isHexDigit_of_mem (h.2 d hd)) []
  · obtain rfl := (List.cons.inj hm).2
    rw [← number_eq_valueOf (.inr rfl) h]
    exact read?_digits_hexadecimal (.inr rfl) h.1 (fun d hd ↦ isHexDigit_of_mem (h.2 d hd)) []

theorem amp_notMem_number {mark digits : Text} {base : Nat} (hmark : ('&' :: mark, base) ∈ marks)
    (h : IsDigits base digits) : '&' ∉ mark ++ digits ++ ";".toList := by
  have hmarks : ∀ m ∈ marks, '&' ∉ m.1.tail ∧ m.2 ≤ 16 := by decide
  obtain ⟨hamp, hle⟩ := hmarks _ hmark
  have hdigits : '&' ∉ digits := by
    intro hm
    have hmem : '&' ∈ digitsOf 16 := List.take_subset_take_left _ hle (h.2 '&' hm)
    exact absurd hmem (by decide)
  simp [hdigits]
  exact hamp

/-- No number wraps: a reference in decimal or hexadecimal digits, however many there are and whatever
zeros they start with, is the character with the code point that they denote, or stays as it is if
there is no such character. -/
theorem decode_number {mark digits : Text} {base : Nat} (hmark : (mark, base) ∈ marks)
    (h : IsDigits base digits) :
    IsReadAs (mark ++ digits ++ ";".toList) (valueOf base digits) := by
  obtain ⟨mark, rfl⟩ : ∃ m, mark = '&' :: m := by
    have hmarks : ∀ m ∈ marks, m.1 = '&' :: m.1.tail := by decide
    exact ⟨_, hmarks _ hmark⟩
  have hread := read?_number hmark h
  constructor
  · intro hscalar
    obtain ⟨c, hc, hchar⟩ := exists_scalar?_eq (n := valueOf base digits) (by omega)
    rw [hchar] at hread
    exact ⟨c, hc, (decode_of_read? hread).trans (congrArg (c :: ·) decode_nil)⟩
  · intro hother
    have hchar : scalar? (valueOf base digits) = none := if_neg (by omega)
    have hrest : decode (mark ++ digits ++ ";".toList) = mark ++ digits ++ ";".toList := by
      have happend := decode_append_of_notMem (amp_notMem_number hmark h) []
      rwa [List.append_nil, decode_nil, List.append_nil] at happend
    rw [hchar] at hread
    exact (decode_of_read?_eq_none hread).trans (congrArg ('&' :: ·) hrest)

/-- In 32 bits the first number would wrap to that of a letter, and the second one is a letter. -/
theorem decode_number_wrap :
    (("&#".toList, 10) ∈ marks ∧ IsDigits 10 "4294967361".toList ∧
      decode "&#4294967361;".toList = "&#4294967361;".toList) ∧
      (("&#X".toList, 16) ∈ marks ∧ IsDigits 16 "0000000000006b".toList ∧
        decode "&#X0000000000006b;".toList = "k".toList) := by
  have hdecimal : ("&#".toList, 10) ∈ marks ∧ IsDigits 10 "4294967361".toList := by decide
  have hhexadecimal : ("&#X".toList, 16) ∈ marks ∧ IsDigits 16 "0000000000006b".toList := by decide
  have hwrap : valueOf 10 "4294967361".toList = 2 ^ 32 + 65 := by decide
  have hletter : valueOf 16 "0000000000006b".toList = 'k'.toNat := by decide
  refine ⟨⟨hdecimal.1, hdecimal.2, ?_⟩, hhexadecimal.1, hhexadecimal.2, ?_⟩
  · exact (decode_number hdecimal.1 hdecimal.2).other (by omega)
  · obtain ⟨c, hc, h⟩ := (decode_number hhexadecimal.1 hhexadecimal.2).scalar (.inl (by decide))
    obtain rfl : c = 'k' := Char.toNat_inj.mp (hc.trans hletter)
    exact h

/-! ## One pass -/

/-- Decoding undoes escaping, so that nothing is decoded twice.  It is one pass: texts are decoded
apart wherever no reference goes over from one into the other.  A reference to a name that no
character has stays as it is. -/
theorem decode_in_one_pass :
    (∀ s, decode (escape s) = s) ∧
      (∀ a b, Apart a b → decode (a ++ b) = decode a ++ decode b) ∧
      ∀ name, IsName name → IsUnknown name → ∀ a b,
        decode (a ++ ('&' :: name ++ ";".toList) ++ b) =
          decode a ++ ('&' :: name ++ ";".toList) ++ decode b :=
  ⟨decode_escape, fun _ _ ↦ decode_append, fun _ ↦ decode_of_isUnknown⟩

/-- A reference that is escaped, a cut between the rest of a reference and what might be one, and a
name in the wrong letter case. -/
theorem decode_in_one_pass_ampersands :
    let a := "&&amp;".toList
    let b := "lt;&#;&x".toList
    (escape "&lt;".toList = "&amp;lt;".toList ∧ decode "&amp;lt;".toList = "&lt;".toList) ∧
      (Apart a b ∧ decode (a ++ b) = decode a ++ decode b) ∧
      (IsName "Amp".toList ∧ IsUnknown "Amp".toList) ∧
        decode (a ++ "&Amp;".toList ++ b) = decode a ++ "&Amp;".toList ++ decode b := by
  intro a b
  obtain ⟨hescape, happend, hunknown⟩ := decode_in_one_pass
  have hescaped : escape "&lt;".toList = "&amp;lt;".toList := by decide
  have hcut : Apart a b := by decide
  have hname : IsName "Amp".toList ∧ IsUnknown "Amp".toList := by decide
  refine ⟨⟨hescaped, ?_⟩, ⟨hcut, happend a b hcut⟩, hname, hunknown _ hname.1 hname.2 a b⟩
  rw [← hescaped]
  exact hescape _

end Typings.Markup.Reference
