import Typings.Proofs.Markup.CodePoint
import Typings.Proofs.Text.Ascii
import Typings.Proofs.Text.Basic

/-!
# Text written with character references

`Encodes` says how a text may be written: characters of some set and ampersands as references, all
others as references or as they are.  Decoding undoes every such writing, whatever stands behind it
(`decode_encodes_append`), and none of the set is left in it (`notMem_of_encodes`).
-/

namespace Typings.Markup.Reference

variable {c : Char} {s t body run rest : Text} {special : List Char}

/-! ## Descriptions -/

/-- What stands between an ampersand and a semicolon denotes a character: by its name, or by its
code point in decimal or hexadecimal digits. -/
inductive Denotes : Text → Char → Prop
  | named {name : Text} {c : Char} : named? name = some c → Denotes name c
  | decimal {digits : Text} {c : Char} : digits ≠ [] → (∀ d ∈ digits, d.isDigit = true) →
    scalar? (number 10 digits) = some c → Denotes ('#' :: digits) c
  | hexadecimal {x : Char} {digits : Text} {c : Char} : x = 'x' ∨ x = 'X' → digits ≠ [] →
    (∀ d ∈ digits, isHexDigit d = true) → scalar? (number 16 digits) = some c →
      Denotes ('#' :: x :: digits) c

/-- The second text writes the first. An ampersand and the characters of `special` are written as
references, and any other character may be. -/
inductive Encodes (special : List Char) : Text → Text → Prop
  | nil : Encodes special [] []
  | plain {c : Char} {s t : Text} : c ≠ '&' → c ∉ special → Encodes special s t →
    Encodes special (c :: s) (c :: t)
  | reference {c : Char} {body s t : Text} : Denotes body c → Encodes special s t →
    Encodes special (c :: s) ('&' :: body ++ ';' :: t)

/-- A text holds nothing that has to be written as a reference. -/
def IsPlain (special : List Char) (s : Text) : Prop := ∀ c ∈ s, c ≠ '&' ∧ c ∉ special

instance : Decidable (IsPlain special s) :=
  decidable_of_iff (s.all (fun c ↦ c ≠ '&' ∧ c ∉ special) = true) (by simp [IsPlain])

theorem Encodes.append {s' t' : Text} (h : Encodes special s t) (h' : Encodes special s' t') :
    Encodes special (s ++ s') (t ++ t') := by
  induction h with
  | nil => exact h'
  | plain hc hs _ ih => exact .plain hc hs ih
  | @reference c body s t hd _ ih =>
    have e : '&' :: body ++ ';' :: t ++ t' = '&' :: body ++ ';' :: (t ++ t') := by simp
    rw [e]
    exact .reference hd ih

/-- A text without special characters may be written as it is. -/
theorem Encodes.self (h : IsPlain special s) : Encodes special s s := by
  induction s with
  | nil => exact .nil
  | cons c s ih =>
    obtain ⟨hc, hs⟩ := List.forall_mem_cons.mp h
    exact .plain hc.1 hc.2 (ih hs)

/-! ## Reading a reference -/

theorem body?_append {p : Char → Bool} (hp : p ';' = false) (hr : run ≠ [])
    (h : ∀ c ∈ run, p c = true) (rest : Text) :
    body? p (run ++ ';' :: rest) = some (run, rest) := by
  have hs : Text.Stops p (';' :: rest) := Text.stops_cons.mpr hp
  rw [body?, Text.dropWhile_append_of_stops h hs, Text.takeWhile_append_of_stops h hs]
  simp [hr]

theorem isAlphanum_of_named? (h : named? s = some c) :
    s.head?.any Text.isLetter = true ∧ ∀ d ∈ s, d.isAlphanum = true := by
  unfold named? at h
  split at h
  · next e => rw [e]; exact ⟨rfl, List.all_eq_true.mp rfl⟩
  split at h
  · next e => rw [e]; exact ⟨rfl, List.all_eq_true.mp rfl⟩
  split at h
  · next e => rw [e]; exact ⟨rfl, List.all_eq_true.mp rfl⟩
  split at h
  · next e => rw [e]; exact ⟨rfl, List.all_eq_true.mp rfl⟩
  split at h
  · next e => rw [e]; exact ⟨rfl, List.all_eq_true.mp rfl⟩
  split at h
  · next e => rw [e]; exact ⟨rfl, List.all_eq_true.mp rfl⟩
  cases h

theorem read?_of_isLetter (h : Text.isLetter c = true) :
    read? (c :: s) = (body? Char.isAlphanum (c :: s)).bind fun (name, rest) =>
      (named? name).map (·, rest) := by
  have hc : c ≠ '#' := by rintro rfl; cases h
  rw [read?.eq_4 _ _ (fun _ e ↦ absurd e hc) (fun _ e ↦ absurd e hc) (fun e ↦ absurd e hc),
    if_pos h]

/-- What follows the sign of a number, if it is not the sign of a hexadecimal one. -/
theorem read?_decimal (hs : ¬ ∃ r, s = 'x' :: r ∨ s = 'X' :: r) :
    read? ('#' :: s) = (body? Char.isDigit s).bind fun (digits, rest) =>
      (character? 10 digits).map (·, rest) :=
  read?.eq_3 s (fun r h ↦ hs ⟨r, .inl h⟩) (fun r h ↦ hs ⟨r, .inr h⟩)

theorem read?_of_not_isLetter (hc : c ≠ '#') (hl : ¬ Text.isLetter c = true) (s : Text) :
    read? (c :: s) = none := by
  rw [read?.eq_4 _ _ (fun _ e ↦ absurd e hc) (fun _ e ↦ absurd e hc) (fun e ↦ absurd e hc),
    if_neg hl]

theorem read?_digits_decimal {digits : Text} (hne : digits ≠ [])
    (hd : ∀ d ∈ digits, d.isDigit = true) (rest : Text) :
    read? ('#' :: digits ++ ';' :: rest) = (scalar? (number 10 digits)).map (·, rest) := by
  have hsign : ¬ ∃ r, digits ++ ';' :: rest = 'x' :: r ∨ digits ++ ';' :: rest = 'X' :: r := by
    cases digits with
    | nil => exact absurd rfl hne
    | cons d digits =>
      rintro ⟨r, e | e⟩
      · cases (List.cons.inj e).1 ▸ hd d List.mem_cons_self
      · cases (List.cons.inj e).1 ▸ hd d List.mem_cons_self
  rw [← character?_decimal, List.cons_append, read?_decimal hsign,
    body?_append (by decide) hne hd]
  rfl

theorem read?_digits_hexadecimal {x : Char} {digits : Text} (hx : x = 'x' ∨ x = 'X')
    (hne : digits ≠ []) (hd : ∀ d ∈ digits, isHexDigit d = true) (rest : Text) :
    read? ('#' :: x :: digits ++ ';' :: rest) = (scalar? (number 16 digits)).map (·, rest) := by
  have hbody := body?_append (by decide) hne hd rest
  rw [← character?_hexadecimal]
  rcases hx with rfl | rfl
  · rw [List.cons_append, List.cons_append, read?.eq_1, hbody]
    rfl
  · rw [List.cons_append, List.cons_append, read?.eq_2, hbody]
    rfl

/-- A reference is read up to its semicolon. -/
theorem read?_of_denotes (h : Denotes body c) (rest : Text) :
    read? (body ++ ';' :: rest) = some (c, rest) := by
  cases h with
  | named h =>
    obtain ⟨hl, ha⟩ := isAlphanum_of_named? h
    cases body with
    | nil => cases hl
    | cons d body =>
      rw [List.cons_append, read?_of_isLetter (by simpa using hl), ← List.cons_append,
        body?_append (by decide) (by simp) ha]
      simp [h]
  | decimal hne hd hc => rw [read?_digits_decimal hne hd, hc, Option.map_some]
  | hexadecimal hx hne hd hc => rw [read?_digits_hexadecimal hx hne hd, hc, Option.map_some]

theorem of_body? {p : Char → Bool} (h : body? p s = some (run, rest)) :
    s = run ++ ';' :: rest ∧ run ≠ [] ∧ ∀ c ∈ run, p c = true := by
  unfold body? at h
  split at h
  · next t e =>
    split at h
    · cases h
    · next hne =>
      cases h
      refine ⟨?_, by simpa using hne, List.all_eq_true.mp List.all_takeWhile⟩
      rw [← e, List.takeWhile_append_dropWhile]
  · cases h

/-- What is read is the body of a reference that denotes the character. -/
theorem exists_denotes_of_read? (h : read? s = some (c, rest)) :
    ∃ body, Denotes body c ∧ s = body ++ ';' :: rest := by
  unfold read? at h
  split at h
  case h_5 => cases h
  case h_4 =>
    split at h
    · simp only [Option.bind_eq_some_iff, Option.map_eq_some_iff] at h
      obtain ⟨⟨name, t⟩, hb, d, hd, he⟩ := h
      cases he
      exact ⟨name, .named hd, (of_body? hb).1⟩
    · cases h
  all_goals
    simp only [Option.bind_eq_some_iff, Option.map_eq_some_iff] at h
    obtain ⟨⟨digits, t⟩, hb, d, hd, he⟩ := h
    cases he
    obtain ⟨rfl, hne, hdigits⟩ := of_body? hb
  · exact ⟨_, .hexadecimal (.inl rfl) hne hdigits ((character?_hexadecimal _).symm.trans hd), rfl⟩
  · exact ⟨_, .hexadecimal (.inr rfl) hne hdigits ((character?_hexadecimal _).symm.trans hd), rfl⟩
  · exact ⟨_, .decimal hne hdigits ((character?_decimal _).symm.trans hd), rfl⟩

theorem read?_eq_some_iff :
    read? s = some (c, rest) ↔ ∃ body, Denotes body c ∧ s = body ++ ';' :: rest := by
  constructor
  · exact exists_denotes_of_read?
  · rintro ⟨body, hd, rfl⟩
    exact read?_of_denotes hd rest

/-! ## Decoding what was written -/

@[simp] theorem decode_nil : decode [] = [] := decode.eq_1

theorem decode_cons_of_ne (h : c ≠ '&') (s : Text) : decode (c :: s) = c :: decode s :=
  decode.eq_3 c s h

theorem decode_of_read? (h : read? s = some (c, rest)) : decode ('&' :: s) = c :: decode rest := by
  rw [decode.eq_2]
  split
  · next e =>
    rw [h] at e
    cases e
    rfl
  · next e =>
    rw [h] at e
    cases e

theorem decode_of_read?_eq_none (h : read? s = none) : decode ('&' :: s) = '&' :: decode s := by
  rw [decode.eq_2]
  split
  · next e =>
    rw [h] at e
    cases e
  · rfl

/-- Decoding gives back what was written and then goes on with what follows. -/
theorem decode_encodes_append (h : Encodes special s t) (rest : Text) :
    decode (t ++ rest) = s ++ decode rest := by
  induction h with
  | nil => rfl
  | plain hc _ _ ih => rw [List.cons_append, decode_cons_of_ne hc, ih, List.cons_append]
  | @reference c body s t hd _ ih =>
    have e : '&' :: body ++ ';' :: t ++ rest = '&' :: (body ++ ';' :: (t ++ rest)) := by simp
    rw [e, decode_of_read? (read?_of_denotes hd _), ih, List.cons_append]

theorem decode_encodes (h : Encodes special s t) : decode t = s := by
  have := decode_encodes_append h []
  rwa [List.append_nil, decode_nil, List.append_nil] at this

/-! ## The characters written -/

/-- The characters that references are made of. -/
def isReferenceChar (c : Char) : Bool := c.isAlphanum || c == '&' || c == '#' || c == ';'

theorem toNat_lt_of_isReferenceChar (h : isReferenceChar c = true) : c.toNat < 128 := by
  simp only [isReferenceChar, Char.isAlphanum, Bool.or_eq_true, beq_iff_eq] at h
  rcases h with (((h | h) | rfl) | rfl) | rfl
  · exact Text.toNat_lt_of_isLetter h
  · exact Text.toNat_lt_of_isDigit h
  all_goals decide

theorem toNat_lt_of_isHexDigit (h : isHexDigit c = true) : c.toNat < 128 := by
  simp only [isHexDigit, Bool.or_eq_true, Bool.and_eq_true, decide_eq_true_eq, Char.le_def,
    UInt32.le_iff_toNat_le] at h
  rcases h with (h | h) | h
  · exact Text.toNat_lt_of_isDigit h
  · exact Nat.lt_of_le_of_lt h.2 (by decide)
  · exact Nat.lt_of_le_of_lt h.2 (by decide)

theorem isAlphanum_of_isHexDigit (h : isHexDigit c = true) : c.isAlphanum = true :=
  Text.of_ascii (P := fun c ↦ isHexDigit c = true → c.isAlphanum = true) (by decide)
    (toNat_lt_of_isHexDigit h) h

/-- The body of a reference consists of letters and digits, but for the sign of a number. -/
theorem isAlphanum_or_eq_of_denotes (h : Denotes body c) :
    ∀ d ∈ body, d.isAlphanum = true ∨ d = '#' := by
  cases h with
  | named h => exact fun d hd ↦ .inl ((isAlphanum_of_named? h).2 d hd)
  | decimal _ hd _ =>
    refine List.forall_mem_cons.mpr ⟨.inr rfl, fun d h ↦ .inl ?_⟩
    simp [Char.isAlphanum, hd d h]
  | hexadecimal hx _ hd _ =>
    refine List.forall_mem_cons.mpr ⟨.inr rfl, List.forall_mem_cons.mpr ⟨.inl ?_, fun d h ↦ ?_⟩⟩
    · rcases hx with rfl | rfl <;> decide
    · exact .inl (isAlphanum_of_isHexDigit (hd d h))

theorem isReferenceChar_of_denotes (h : Denotes body c) :
    ∀ d ∈ body, isReferenceChar d = true := by
  intro d hd
  rcases isAlphanum_or_eq_of_denotes h d hd with h | rfl
  · simp [isReferenceChar, h]
  · decide

/-- A character of a written text belongs to a reference or stands for itself. -/
theorem mem_of_encodes (h : Encodes special s t) {x : Char} (hx : x ∈ t) :
    isReferenceChar x = true ∨ x ∈ s ∧ x ∉ special := by
  induction h with
  | nil => cases hx
  | plain _ hs _ ih =>
    rcases List.mem_cons.mp hx with rfl | hx
    · exact .inr ⟨List.mem_cons_self, hs⟩
    · exact (ih hx).imp_right fun h ↦ ⟨List.mem_cons_of_mem _ h.1, h.2⟩
  | reference hd _ ih =>
    rcases List.mem_append.mp hx with hx | hx
    · rcases List.mem_cons.mp hx with rfl | hx
      · exact .inl (by decide)
      · exact .inl (isReferenceChar_of_denotes hd x hx)
    · rcases List.mem_cons.mp hx with rfl | hx
      · exact .inl (by decide)
      · exact (ih hx).imp_right fun h ↦ ⟨List.mem_cons_of_mem _ h.1, h.2⟩

theorem notMem_of_encodes (h : Encodes special s t) {x : Char} (hx : x ∈ special)
    (hr : isReferenceChar x = false) : x ∉ t := by
  intro hm
  rcases mem_of_encodes h hm with hx' | ⟨-, hx'⟩
  · rw [hr] at hx'
    cases hx'
  · exact hx' hx

theorem ne_nil_of_encodes (h : Encodes special s t) (hs : s ≠ []) : t ≠ [] := by
  cases h with
  | nil => exact absurd rfl hs
  | plain => simp
  | reference => simp

end Typings.Markup.Reference
