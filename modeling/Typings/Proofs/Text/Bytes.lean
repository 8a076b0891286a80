import Mathlib.Data.List.Basic
import Mathlib.Order.Basic
import Typings.Text.Basic

/-!
# The bytes of a text

The order of texts by code points is the order of their bytes (`le_iff`): the bytes of a character
never begin those of another one, and are smaller than them if its code point is
(`utf8EncodeChar_append_lt`).
-/

namespace Typings.Text

variable {s t : Text} {c d : Char}

/-- The bytes of a text in UTF-8. -/
def utf8 (s : Text) : List UInt8 := s.flatMap String.utf8EncodeChar

@[simp] theorem utf8_nil : utf8 [] = [] := rfl

theorem utf8_cons (c : Char) (s : Text) : utf8 (c :: s) = String.utf8EncodeChar c ++ utf8 s := rfl

theorem toNat_lt (c : Char) : c.val.toNat < 0x110000 := by
  have h := c.valid
  rw [UInt32.isValidChar, Nat.isValidChar] at h
  omega

theorem utf8EncodeChar_append_lt (h : c.toNat < d.toNat) (xs ys : List UInt8) :
    String.utf8EncodeChar c ++ xs < String.utf8EncodeChar d ++ ys := by
  have hd := toNat_lt d
  rw [Char.toNat, Char.toNat] at h
  simp only [String.utf8EncodeChar]
  generalize c.val.toNat = m at h
  generalize d.val.toNat = n at h hd
  have hpage : ∀ k, k / 4096 = k / 64 / 64 := fun k ↦ (Nat.div_div_eq_div_mul k 64 64).symm
  have hplane : ∀ k, k / 262144 = k / 64 / 64 / 64 := fun k ↦ by
    rw [Nat.div_div_eq_div_mul, Nat.div_div_eq_div_mul]
  split_ifs <;> try omega
  all_goals
    simp only [List.cons_append, List.nil_append, List.cons_lt_cons_iff, UInt8.lt_iff_toNat_lt,
      ← UInt8.toNat_inj, UInt8.toNat_ofNat', hpage, hplane]
    omega

theorem utf8_nil_lt_cons (c : Char) (s : Text) : utf8 [] < utf8 (c :: s) := by
  have hne : String.utf8EncodeChar c ≠ [] := by
    simp only [String.utf8EncodeChar]
    split_ifs <;> exact List.cons_ne_nil _ _
  rw [utf8_nil, utf8_cons]
  cases hc : String.utf8EncodeChar c with
  | nil => exact absurd hc hne
  | cons b bs => exact List.nil_lt_cons _ _

theorem le_cons_cons : le (c :: s) (d :: t) = true ↔ c.toNat < d.toNat ∨ c = d ∧ le s t = true := by
  rw [le, Bool.or_eq_true, decide_eq_true_eq, Bool.and_eq_true, beq_iff_eq]

theorem utf8_lt_of_le (h : le s t = true) (hne : s ≠ t) : utf8 s < utf8 t := by
  induction s generalizing t with
  | nil =>
    cases t with
    | nil => exact absurd rfl hne
    | cons d t => exact utf8_nil_lt_cons d t
  | cons c s ih =>
    cases t with
    | nil => cases h
    | cons d t =>
      rw [utf8_cons, utf8_cons]
      rcases le_cons_cons.mp h with hlt | ⟨rfl, hle⟩
      · exact utf8EncodeChar_append_lt hlt _ _
      · exact List.append_left_lt (ih hle fun hs ↦ hne (hs ▸ rfl))

theorem le_total (s t : Text) : le s t = true ∨ le t s = true := by
  induction s generalizing t with
  | nil => exact .inl rfl
  | cons c s ih =>
    cases t with
    | nil => exact .inr rfl
    | cons d t =>
      rw [le_cons_cons, le_cons_cons]
      rcases Nat.lt_trichotomy c.toNat d.toNat with h | h | h
      · exact .inl (.inl h)
      · obtain rfl := Char.toNat_inj.mp h
        exact (ih t).imp (fun h ↦ .inr ⟨rfl, h⟩) fun h ↦ .inr ⟨rfl, h⟩
      · exact .inr (.inl h)

/-- The order of texts is the order of their bytes. -/
theorem le_iff : le s t = true ↔ utf8 s ≤ utf8 t := by
  by_cases hst : s = t
  · subst hst
    simpa using le_total s s
  · constructor
    · intro h
      exact List.le_of_lt (utf8_lt_of_le h hst)
    · intro h
      refine (le_total s t).resolve_right fun hle ↦ ?_
      exact List.not_lt.mpr h (utf8_lt_of_le hle (Ne.symm hst))

theorem le_antisymm (h : le s t = true) (h' : le t s = true) : s = t := by
  by_contra hne
  exact List.lt_asymm (utf8_lt_of_le h hne) (utf8_lt_of_le h' (Ne.symm hne))

theorem le_trans {u : Text} (h : le s t = true) (h' : le t u = true) : le s u = true :=
  le_iff.mpr (List.le_trans (le_iff.mp h) (le_iff.mp h'))

end Typings.Text
