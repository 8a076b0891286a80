import Mathlib.Data.List.Infix
import Typings.Proofs.Text.Ascii
import Typings.Proofs.Text.Basic
import Typings.Proofs.Text.Bytes

/-!
# Byte offsets

A text can be cut at a byte offset just if that is a boundary between characters
(`cut?_eq_some_iff_utf8`), and has a slice just if the offsets are boundaries in order
(`slice?_eq_some_iff_utf8`).  A pattern that is searched for in the bytes of a text is found where the
text itself is cut in front of it (`offsetOf?_eq`, `offsetIgnoringCase?_eq`), as no character begins
inside of another one.
-/

namespace Typings.Text

variable {a b pattern s t : Text} {c d : Char} {i j n : Nat}

/-! ## Descriptions -/

/-- The offset is within the text or at its end, and no character goes over it. -/
def IsBoundary (s : Text) (i : Nat) : Prop :=
  i ≤ (utf8 s).length ∧ ∀ b ∈ (utf8 s)[i]?, b.IsUTF8FirstByte

/-- Cuts the text behind this number of bytes. There is no such place inside of a character or
beyond the end. -/
def cut? : Text → Nat → Option (Text × Text)
  | s, 0 => some ([], s)
  | [], _ + 1 => none
  | c :: r, n + 1 =>
    if c.utf8Size ≤ n + 1 then (cut? r (n + 1 - c.utf8Size)).map fun (a, b) => (c :: a, b) else none

/-- The part of the text from one byte offset to another. -/
def slice? (s : Text) (i j : Nat) : Option Text :=
  if i ≤ j then (cut? s j).bind fun (front, _) => (cut? front i).map Prod.snd else none

/-- The byte offset of the first occurrence of a pattern, searched for in the bytes. -/
def offsetOf? (pattern s : Text) : Option Nat :=
  (utf8 s).tails.findIdx? ((utf8 pattern).isPrefixOf ·)

/-- The lower case of a byte that is a capital letter. -/
def lowerByte (b : UInt8) : UInt8 := if 0x41 ≤ b ∧ b ≤ 0x5A then b + 0x20 else b

/-- The byte offset of the first window of bytes that is the pattern but for the case of letters. -/
def offsetIgnoringCase? (pattern s : Text) : Option Nat :=
  (utf8 s).tails.findIdx? fun bytes =>
    (bytes.take (utf8 pattern).length).map lowerByte == (utf8 pattern).map lowerByte

/-- The offset at which a text was cut in two, if there is anything behind the cut. -/
def cutOffset? (parts : Text × Text) : Option Nat :=
  if parts.2.isEmpty then none else some (byteLength parts.1)

/-! ## Lengths -/

@[simp] theorem byteLength_nil : byteLength [] = 0 := rfl

@[simp] theorem byteLength_cons (c : Char) (s : Text) :
    byteLength (c :: s) = c.utf8Size + byteLength s := rfl

@[simp] theorem byteLength_append (s t : Text) :
    byteLength (s ++ t) = byteLength s + byteLength t := by
  induction s with
  | nil => simp
  | cons c s ih => rw [List.cons_append, byteLength_cons, byteLength_cons, ih, Nat.add_assoc]

theorem byteLength_eq_zero : byteLength s = 0 ↔ s = [] := by
  cases s with
  | nil => simp
  | cons c s =>
    have := c.utf8Size_pos
    simp only [byteLength_cons, reduceCtorEq, iff_false]
    omega

theorem utf8_append (s t : Text) : utf8 (s ++ t) = utf8 s ++ utf8 t := List.flatMap_append

theorem length_utf8 (s : Text) : (utf8 s).length = byteLength s := by
  induction s with
  | nil => rfl
  | cons c s ih => rw [utf8_cons, List.length_append, String.length_utf8EncodeChar, ih, byteLength_cons]

/-! ## Cuts and slices -/

theorem cut?_cons (hn : n ≠ 0) : cut? (c :: s) n =
    if c.utf8Size ≤ n then (cut? s (n - c.utf8Size)).map fun (a, b) => (c :: a, b) else none := by
  cases n with
  | zero => exact absurd rfl hn
  | succ n => rfl

theorem cut?_append (a b : Text) : cut? (a ++ b) (byteLength a) = some (a, b) := by
  induction a with
  | nil => cases b <;> rfl
  | cons c a ih =>
    have hc := c.utf8Size_pos
    rw [List.cons_append, byteLength_cons, cut?_cons (by omega), if_pos (by omega),
      Nat.add_sub_cancel_left, ih, Option.map_some]

theorem append_eq_of_cut? (h : cut? s n = some (a, b)) : s = a ++ b ∧ byteLength a = n := by
  induction s generalizing n a b with
  | nil => cases n <;> cases h; exact ⟨rfl, rfl⟩
  | cons c s ih =>
    by_cases hn : n = 0
    · subst hn
      cases h
      exact ⟨rfl, rfl⟩
    · rw [cut?_cons hn] at h
      split at h
      · obtain ⟨⟨a, b⟩, hcut, he⟩ := Option.map_eq_some_iff.mp h
        cases he
        obtain ⟨rfl, ha⟩ := ih hcut
        rw [byteLength_cons]
        exact ⟨rfl, by omega⟩
      · cases h

theorem cut?_eq_some_iff : cut? s n = some (a, b) ↔ s = a ++ b ∧ byteLength a = n := by
  constructor
  · exact append_eq_of_cut?
  · rintro ⟨rfl, rfl⟩
    exact cut?_append a b

theorem slice?_eq_some_iff : slice? s i j = some t ↔
    ∃ a b, s = a ++ t ++ b ∧ byteLength a = i ∧ byteLength (a ++ t) = j := by
  unfold slice?
  split
  · simp only [Option.bind_eq_some_iff, Option.map_eq_some_iff, Prod.exists, cut?_eq_some_iff]
    constructor
    · rintro ⟨_, b, ⟨rfl, hj⟩, a, _, ⟨rfl, hi⟩, rfl⟩
      exact ⟨a, b, rfl, hi, hj⟩
    · rintro ⟨a, b, rfl, hi, hj⟩
      exact ⟨a ++ t, b, ⟨rfl, hj⟩, a, t, ⟨rfl, hi⟩, rfl⟩
  · next hij =>
    simp only [reduceCtorEq, byteLength_append, false_iff, not_exists, not_and]
    omega

theorem slice?_append (a t b : Text) :
    slice? (a ++ t ++ b) (byteLength a) (byteLength (a ++ t)) = some t :=
  slice?_eq_some_iff.mpr ⟨a, b, rfl, rfl, rfl⟩

theorem slice?_between (a t b : Text) :
    slice? (a ++ t ++ b) (byteLength a) (byteLength (a ++ t ++ b) - byteLength b) = some t := by
  rw [byteLength_append (a ++ t), Nat.add_sub_cancel, slice?_append]

theorem slice?_front (a b : Text) : slice? (a ++ b) 0 (byteLength a) = some a :=
  slice?_append [] a b

theorem slice?_back (a b : Text) :
    slice? (a ++ b) (byteLength a) (byteLength (a ++ b)) = some b := by
  simpa using slice?_append a b []

/-! ## Boundaries -/

@[simp] theorem isBoundary_nil : IsBoundary [] i ↔ i = 0 := by
  simp [IsBoundary]

/-- No offset inside of the first character is a boundary. -/
theorem isBoundary_cons : IsBoundary (c :: s) i ↔
    i = 0 ∨ c.utf8Size ≤ i ∧ IsBoundary s (i - c.utf8Size) := by
  have hc := c.utf8Size_pos
  have hlength := String.length_utf8EncodeChar c
  rw [IsBoundary, IsBoundary, utf8_cons, List.length_append, hlength]
  by_cases hi : i < c.utf8Size
  · rw [List.getElem?_append_left (by omega), List.getElem?_eq_getElem (by omega)]
    simp only [Option.mem_some_iff, forall_eq', UInt8.isUTF8FirstByte_getElem_utf8EncodeChar]
    omega
  · have hle : c.utf8Size ≤ i := Nat.le_of_not_lt hi
    rw [List.getElem?_append_right (by omega), hlength, or_iff_right (by omega), and_iff_right hle,
      Nat.sub_le_iff_le_add']

/-- The boundaries are the lengths of the parts in front of a cut. -/
theorem isBoundary_iff : IsBoundary s i ↔ ∃ a b, s = a ++ b ∧ byteLength a = i := by
  induction s generalizing i with
  | nil => simp [eq_comm]
  | cons c s ih =>
    rw [isBoundary_cons, ih]
    constructor
    · rintro (rfl | ⟨hc, a, b, rfl, ha⟩)
      · exact ⟨[], c :: s, rfl, rfl⟩
      · exact ⟨c :: a, b, rfl, by rw [byteLength_cons]; omega⟩
    · rintro ⟨a, b, he, rfl⟩
      rcases List.cons_eq_append_iff.mp he with ⟨rfl, -⟩ | ⟨a, rfl, rfl⟩
      · exact .inl rfl
      · rw [byteLength_cons, Nat.add_sub_cancel_left]
        exact .inr ⟨Nat.le_add_right _ _, a, b, rfl, rfl⟩

theorem utf8_injective (h : utf8 s = utf8 t) : s = t :=
  le_antisymm (le_iff.mpr (h ▸ List.le_refl _)) (le_iff.mpr (h ▸ List.le_refl _))

/-- A text can be cut at its boundaries, and its bytes are then cut there. -/
theorem cut?_eq_some_iff_utf8 : cut? s n = some (a, b) ↔
    IsBoundary s n ∧ utf8 a = (utf8 s).take n ∧ utf8 b = (utf8 s).drop n := by
  rw [cut?_eq_some_iff, isBoundary_iff]
  constructor
  · rintro ⟨rfl, rfl⟩
    rw [utf8_append, ← length_utf8, List.take_left, List.drop_left]
    exact ⟨⟨a, b, rfl, (length_utf8 a).symm⟩, rfl, rfl⟩
  · rintro ⟨⟨a', b', rfl, rfl⟩, ha, hb⟩
    rw [utf8_append, ← length_utf8, List.take_left] at ha
    rw [utf8_append, ← length_utf8, List.drop_left] at hb
    rw [utf8_injective ha, utf8_injective hb]
    exact ⟨rfl, rfl⟩

/-- A part of a text in front of a cut goes on to a later cut. -/
theorem exists_append_of_le {a' b' : Text} (h : a ++ b = a' ++ b')
    (hle : byteLength a ≤ byteLength a') : ∃ t, a' = a ++ t := by
  rcases List.append_eq_append_iff.mp h with ⟨t, ht, -⟩ | ⟨t, rfl, -⟩
  · exact ⟨t, ht⟩
  · have ht : byteLength t = 0 := by
      rw [byteLength_append] at hle
      omega
    rw [byteLength_eq_zero.mp ht]
    exact ⟨[], by simp⟩

/-- Slices are there just for boundaries in order. -/
theorem exists_slice?_iff :
    (∃ t, slice? s i j = some t) ↔ i ≤ j ∧ IsBoundary s i ∧ IsBoundary s j := by
  simp only [slice?_eq_some_iff, isBoundary_iff]
  constructor
  · rintro ⟨t, a, b, rfl, rfl, rfl⟩
    refine ⟨?_, ⟨a, t ++ b, List.append_assoc a t b, rfl⟩, a ++ t, b, rfl, rfl⟩
    rw [byteLength_append]
    exact Nat.le_add_right _ _
  · rintro ⟨hij, ⟨a, b, rfl, rfl⟩, a', b', h, rfl⟩
    obtain ⟨t, rfl⟩ := exists_append_of_le h hij
    exact ⟨t, a, b', h, rfl, rfl⟩

theorem utf8_of_slice? (h : slice? s i j = some t) : utf8 t = (utf8 s).extract i j := by
  obtain ⟨a, b, rfl, rfl, rfl⟩ := slice?_eq_some_iff.mp h
  rw [List.extract_eq_take_drop, utf8_append, utf8_append, ← length_utf8 a, List.append_assoc,
    List.drop_left, byteLength_append, length_utf8, Nat.add_sub_cancel_left, ← length_utf8,
    List.take_left]

/-- A text has slices between its boundaries, with the bytes that stand there. -/
theorem slice?_eq_some_iff_utf8 : slice? s i j = some t ↔
    (i ≤ j ∧ IsBoundary s i ∧ IsBoundary s j) ∧ utf8 t = (utf8 s).extract i j := by
  constructor
  · intro h
    exact ⟨exists_slice?_iff.mp ⟨t, h⟩, utf8_of_slice? h⟩
  · rintro ⟨hij, ht⟩
    obtain ⟨t', h⟩ := exists_slice?_iff.mpr hij
    rw [h, utf8_injective ((utf8_of_slice? h).trans ht.symm)]

example : slice? "é<".toList 2 3 = some "<".toList ∧ slice? "é<".toList 1 3 = none := ⟨rfl, rfl⟩

/-! ## Searching -/

theorem utf8_ne_nil (h : s ≠ []) : utf8 s ≠ [] := by
  rw [ne_eq, ← List.length_eq_zero_iff, length_utf8, byteLength_eq_zero]
  exact h

/-- The bytes of a character do not begin those of another one. -/
theorem utf8_prefix_iff : utf8 s <+: utf8 t ↔ s <+: t := by
  constructor
  · intro h
    induction s generalizing t with
    | nil => exact List.nil_prefix
    | cons c s ih =>
      obtain ⟨rest, h⟩ := h
      cases t with
      | nil => simp [utf8_cons, String.utf8EncodeChar_ne_nil] at h
      | cons d t =>
        rw [utf8_cons, utf8_cons, List.append_assoc] at h
        rcases Nat.lt_trichotomy c.toNat d.toNat with hlt | heq | hlt
        · exact absurd (h ▸ utf8EncodeChar_append_lt hlt _ _) (List.lt_irrefl _)
        · obtain rfl := Char.toNat_inj.mp heq
          exact List.cons_prefix_cons.mpr ⟨rfl, ih ⟨rest, List.append_cancel_left h⟩⟩
        · exact absurd (h ▸ utf8EncodeChar_append_lt hlt _ _) (List.lt_irrefl _)
  · rintro ⟨r, rfl⟩
    rw [utf8_append]
    exact List.prefix_append _ _

theorem isUTF8FirstByte_of_utf8_eq_cons {x : UInt8} {xs : List UInt8} (h : utf8 s = x :: xs) :
    x.IsUTF8FirstByte := by
  cases s with
  | nil => cases h
  | cons c s =>
    have hc := UInt8.isUTF8FirstByte_getElem_zero_utf8EncodeChar (c := c)
    rw [utf8_cons] at h
    cases hbytes : String.utf8EncodeChar c with
    | nil => exact absurd hbytes String.utf8EncodeChar_ne_nil
    | cons y ys =>
      simp only [hbytes, List.getElem_cons_zero] at hc
      rw [hbytes] at h
      rwa [← (List.cons.inj h).1]

/-- The search goes past bytes at which there is no match. -/
theorem findIdx?_tails_append {p : List UInt8 → Bool} {xs ys : List UInt8}
    (h : ∀ u, u ≠ [] → u <:+ xs → p (u ++ ys) = false) :
    (xs ++ ys).tails.findIdx? p = (ys.tails.findIdx? p).map (· + xs.length) := by
  induction xs with
  | nil => simp
  | cons x xs ih =>
    have hx : p (x :: (xs ++ ys)) = false := h (x :: xs) (List.cons_ne_nil _ _) List.suffix_rfl
    rw [List.cons_append, List.tails_cons, List.findIdx?_cons, hx,
      ih fun u hu hs ↦ h u hu (hs.trans (List.suffix_cons x xs))]
    simp [Function.comp_def, Nat.add_assoc]

/-- What stands behind the first byte of a character does not begin like a character. -/
theorem not_isUTF8FirstByte_of_suffix {x : UInt8} {xs : List UInt8}
    (h : x :: xs <:+ String.utf8EncodeChar c) (hne : x :: xs ≠ String.utf8EncodeChar c) :
    ¬ x.IsUTF8FirstByte := by
  obtain ⟨front, hfront⟩ := h
  have hlt : front.length < (String.utf8EncodeChar c).length := by simp [← hfront]
  have hx : (String.utf8EncodeChar c)[front.length] = x := by simp [← hfront]
  rw [← hx, UInt8.isUTF8FirstByte_getElem_utf8EncodeChar, List.length_eq_zero_iff]
  rintro rfl
  exact hne hfront

theorem cutOffset?_cons (c : Char) (parts : Text × Text) :
    cutOffset? (c :: parts.1, parts.2) = (cutOffset? parts).map (· + c.utf8Size) := by
  unfold cutOffset?
  split <;> simp [Nat.add_comm]

/-- The offset of a cut is the length of the part in front of it, be there anything behind or not. -/
theorem getD_cutOffset?_breakAt (stop : Text → Bool) (s : Text) :
    (cutOffset? (breakAt stop s)).getD (byteLength s) = byteLength (breakAt stop s).1 := by
  unfold cutOffset?
  split
  · next h =>
    have hs := breakAt_append stop s
    rw [List.isEmpty_iff.mp h, List.append_nil] at hs
    rw [hs, Option.getD_none]
  · rfl

/-- A search that no byte inside of a character stops finds the place where the text is cut. -/
theorem findIdx?_tails_utf8 {p : List UInt8 → Bool} {stop : Text → Bool} (hnil : p [] = false)
    (hstop : ∀ c r, p (utf8 (c :: r)) = stop (c :: r))
    (hinside : ∀ x xs, ¬ x.IsUTF8FirstByte → p (x :: xs) = false) (s : Text) :
    (utf8 s).tails.findIdx? p = cutOffset? (breakAt stop s) := by
  induction s with
  | nil => simp [hnil, breakAt, cutOffset?]
  | cons c r ih =>
    cases hc : stop (c :: r) with
    | true =>
      have hp := (hstop c r).trans hc
      obtain ⟨x, xs, hbytes⟩ := List.exists_cons_of_ne_nil (utf8_ne_nil (List.cons_ne_nil c r))
      rw [hbytes] at hp
      rw [hbytes, List.tails_cons, List.findIdx?_cons, hp, breakAt, hc]
      rfl
    | false =>
      -- there is no match at the first byte of the character, and none can be inside of it
      have hpast : ∀ u, u ≠ [] → u <:+ String.utf8EncodeChar c → p (u ++ utf8 r) = false := by
        intro u hu hs
        by_cases hwhole : u = String.utf8EncodeChar c
        · rw [hwhole, ← utf8_cons, hstop, hc]
        · obtain ⟨x, xs, rfl⟩ := List.exists_cons_of_ne_nil hu
          exact hinside x _ (not_isUTF8FirstByte_of_suffix hs hwhole)
      rw [utf8_cons, findIdx?_tails_append hpast, ih, breakAt, if_neg (by simp [hc]),
        cutOffset?_cons, String.length_utf8EncodeChar]

theorem offsetOf?_eq (h : pattern ≠ []) (s : Text) :
    offsetOf? pattern s = cutOffset? (breakOn pattern s) := by
  obtain ⟨x, xs, hbytes⟩ := List.exists_cons_of_ne_nil (utf8_ne_nil h)
  refine findIdx?_tails_utf8 (by rw [hbytes]; rfl) (fun c r ↦ ?_) (fun y ys hy ↦ ?_) s
  · rw [Bool.eq_iff_iff, List.isPrefixOf_iff_prefix, List.isPrefixOf_iff_prefix, utf8_prefix_iff]
  · have hx : x ≠ y := by
      rintro rfl
      exact hy (isUTF8FirstByte_of_utf8_eq_cons hbytes)
    rw [hbytes, List.isPrefixOf_cons_cons, beq_eq_false_iff_ne.mpr hx, Bool.false_and]

/-! ## Letter case -/

theorem lowerByte_of_le {x : UInt8} (h : 0x80 ≤ x) : lowerByte x = x := by
  have h' := UInt8.le_iff_toNat_le.mp h
  refine if_neg fun hx ↦ ?_
  have := UInt8.le_iff_toNat_le.mp hx.2
  simp at h' this
  omega

theorem le_of_not_isUTF8FirstByte {x : UInt8} (h : ¬ x.IsUTF8FirstByte) : 0x80 ≤ x := by
  have hascii : ∀ n < 128, (UInt8.ofNat n).IsUTF8FirstByte := by decide
  rw [UInt8.le_iff_toNat_le]
  by_contra hx
  refine h ?_
  simpa using hascii x.toNat (by simpa using hx)

/-- Every byte of a character beyond ASCII is beyond ASCII. -/
theorem le_of_mem_utf8EncodeChar (hc : 128 ≤ c.toNat) :
    ∀ x ∈ String.utf8EncodeChar c, 0x80 ≤ x := by
  rw [Char.toNat] at hc
  simp only [String.utf8EncodeChar]
  generalize c.val.toNat = n at hc
  split_ifs
  · omega
  all_goals
    simp only [List.mem_cons, List.not_mem_nil, or_false, forall_eq_or_imp, forall_eq,
      UInt8.le_iff_toNat_le, UInt8.toNat_ofNat', UInt8.reduceToNat]
    omega

theorem map_lowerByte_utf8EncodeChar (c : Char) :
    (String.utf8EncodeChar c).map lowerByte = String.utf8EncodeChar c.toLower := by
  by_cases hc : c.toNat < 128
  · exact of_ascii (P := fun c ↦ (String.utf8EncodeChar c).map lowerByte =
      String.utf8EncodeChar c.toLower) (by decide) hc
  · have hletter : isLetter c = false := by
      rw [← Bool.not_eq_true]
      exact mt toNat_lt_of_isLetter hc
    rw [toLower_of_not_isLetter hletter]
    exact (List.map_congr_left fun x hx ↦
      lowerByte_of_le (le_of_mem_utf8EncodeChar (Nat.le_of_not_lt hc) x hx)).trans (List.map_id _)

/-- The bytes in lower case are those of the text in lower case. -/
theorem map_lowerByte_utf8 (s : Text) : (utf8 s).map lowerByte = utf8 (toLower s) := by
  induction s with
  | nil => rfl
  | cons c s ih =>
    rw [utf8_cons, List.map_append, map_lowerByte_utf8EncodeChar, ih]
    rfl

theorem byteLength_toLower (s : Text) : byteLength (toLower s) = byteLength s := by
  rw [← length_utf8, ← map_lowerByte_utf8, List.length_map, length_utf8]

theorem eqIgnoringCase_take_iff (pattern s : Text) :
    eqIgnoringCase (s.take pattern.length) pattern = true ↔ toLower pattern <+: toLower s := by
  rw [eqIgnoringCase, beq_iff_eq, eq_comm, List.prefix_iff_eq_take]
  simp only [toLower, List.map_take, List.length_map]

/-- A window of bytes is the pattern but for the case of letters. -/
theorem take_map_lowerByte_iff (pattern : Text) (bytes : List UInt8) :
    ((bytes.take (utf8 pattern).length).map lowerByte == (utf8 pattern).map lowerByte) = true ↔
      utf8 (toLower pattern) <+: bytes.map lowerByte := by
  rw [beq_iff_eq, eq_comm, List.prefix_iff_eq_take, List.map_take, ← map_lowerByte_utf8,
    List.length_map]

theorem offsetIgnoringCase?_eq (h : pattern ≠ []) (s : Text) : offsetIgnoringCase? pattern s =
    cutOffset? (breakAt (fun s ↦ eqIgnoringCase (s.take pattern.length) pattern) s) := by
  obtain ⟨x, xs, hbytes⟩ :=
    List.exists_cons_of_ne_nil (utf8_ne_nil (mt List.map_eq_nil_iff.mp h : toLower pattern ≠ []))
  refine findIdx?_tails_utf8 ?_ (fun c r ↦ ?_) (fun y ys hy ↦ ?_) s
  · rw [← Bool.not_eq_true, take_map_lowerByte_iff, hbytes]
    simp
  · rw [Bool.eq_iff_iff, take_map_lowerByte_iff, map_lowerByte_utf8, utf8_prefix_iff,
      eqIgnoringCase_take_iff]
  · rw [← Bool.not_eq_true, take_map_lowerByte_iff, hbytes, List.map_cons, List.cons_prefix_cons,
      lowerByte_of_le (le_of_not_isUTF8FirstByte hy)]
    rintro ⟨rfl, -⟩
    exact hy (isUTF8FirstByte_of_utf8_eq_cons hbytes)

end Typings.Text
