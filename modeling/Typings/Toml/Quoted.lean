import Typings.Toml.Trivia

/-! # Quoted text in TOML -/

namespace Typings.Toml.Quoted

/-- The characters that may stand for themselves on one line between quotes. -/
def isPlain (c : Char) : Bool := c == '\t' || (0x20 ≤ c.toNat && c.toNat != 0x7F)

def hexValue? (c : Char) : Option Nat :=
  if '0' ≤ c && c ≤ '9' then some (c.toNat - 48)
  else if 'a' ≤ c && c ≤ 'f' then some (c.toNat - 87)
  else if 'A' ≤ c && c ≤ 'F' then some (c.toNat - 55)
  else none

/-- Reads exactly `n` hexadecimal digits onto a number. -/
def hex? : Nat → Nat → Text → Option (Nat × Text)
  | 0, value, s => some (value, s)
  | _ + 1, _, [] => none
  | n + 1, value, c :: r =>
    match hexValue? c with
    | some d => hex? n (value * 16 + d) r
    | none => none

/-- Reads the code point of a character, which is no surrogate, as `n` digits. -/
def scalar? (n : Nat) (s : Text) : Option (Char × Text) :=
  match hex? n 0 s with
  | some (v, rest) =>
    if v < 0xD800 ∨ (0xDFFF < v ∧ v < 0x110000) then some (Char.ofNat v, rest) else none
  | none => none

/-- What a character stands for behind a backslash. -/
def shortEscape? (c : Char) : Option Char :=
  if c = '"' ∨ c = '\\' then some c
  else if c = 'b' then some '\x08'
  else if c = 't' then some '\t'
  else if c = 'n' then some '\n'
  else if c = 'f' then some '\x0C'
  else if c = 'r' then some '\r'
  else if c = 'e' then some '\x1B'
  else none

/-- Reads an escape, from behind its backslash. -/
def escape? : Text → Option (Char × Text)
  | [] => none
  | 'x' :: r => scalar? 2 r
  | 'u' :: r => scalar? 4 r
  | 'U' :: r => scalar? 8 r
  | c :: r => (shortEscape? c).map (·, r)

theorem length_hex?_le {n v w : Nat} {s rest : Text} (h : hex? n v s = some (w, rest)) :
    rest.length ≤ s.length := by
  fun_induction hex? n v s with
  | case1 => cases h; exact Nat.le_refl _
  | case2 => cases h
  | case3 n v c r d e ih =>
    have := ih h
    simp only [List.length_cons]
    omega
  | case4 => cases h

theorem length_scalar?_le {n : Nat} {c : Char} {s rest : Text} (h : scalar? n s = some (c, rest)) :
    rest.length ≤ s.length := by
  unfold scalar? at h
  split at h
  · next e =>
    split at h
    · simp only [Option.some.injEq, Prod.mk.injEq] at h
      rw [← h.2]
      exact length_hex?_le e
    · cases h
  · cases h

theorem length_escape?_lt {c : Char} {s rest : Text} (h : escape? s = some (c, rest)) :
    rest.length < s.length := by
  unfold escape? at h
  split at h
  · cases h
  · exact Nat.lt_succ_of_le (length_scalar?_le h)
  · exact Nat.lt_succ_of_le (length_scalar?_le h)
  · exact Nat.lt_succ_of_le (length_scalar?_le h)
  · simp only [Option.map_eq_some_iff] at h
    obtain ⟨_, _, e⟩ := h
    cases e
    simp

/-- Reads a text between double quotes on one line, from behind the opening one. -/
def basic? : Text → Option (Text × Text)
  | [] => none
  | '"' :: r => some ([], r)
  | '\\' :: r =>
    match _h : escape? r with
    | none => none
    | some (c, rest) => (basic? rest).map fun (s, t) => (c :: s, t)
  | c :: r => if isPlain c then (basic? r).map fun (s, t) => (c :: s, t) else none
termination_by s => s.length
decreasing_by
  · have := length_escape?_lt _h
    simp only [List.length_cons]
    omega
  · simp

theorem length_basic?_lt {s t rest : Text} (h : basic? s = some (t, rest)) :
    rest.length < s.length := by
  fun_induction basic? s generalizing t rest with
  | case1 => cases h
  | case2 => cases h; simp
  | case3 => cases h
  | case4 r c u e ih =>
    simp only [Option.map_eq_some_iff] at h
    obtain ⟨⟨v, w⟩, hv, e'⟩ := h
    cases e'
    have := length_escape?_lt e
    have := ih hv
    simp only [List.length_cons]
    omega
  | case5 c r _ _ _ ih =>
    simp only [Option.map_eq_some_iff] at h
    obtain ⟨⟨v, w⟩, hv, e'⟩ := h
    cases e'
    exact Nat.lt_succ_of_lt (ih hv)
  | case6 => cases h

/-- Reads a text between single quotes on one line, from behind the opening one. -/
def literal? : Text → Option (Text × Text)
  | [] => none
  | '\'' :: r => some ([], r)
  | c :: r => if isPlain c then (literal? r).map fun (s, t) => (c :: s, t) else none

theorem length_literal?_lt {s t rest : Text} (h : literal? s = some (t, rest)) :
    rest.length < s.length := by
  fun_induction literal? s generalizing t rest with
  | case1 => cases h
  | case2 => cases h; simp
  | case3 c r _ _ ih =>
    simp only [Option.map_eq_some_iff] at h
    obtain ⟨⟨v, w⟩, hv, e'⟩ := h
    cases e'
    exact Nat.lt_succ_of_lt (ih hv)
  | case4 => cases h

/-- Reads the three quotes that close a text of several lines, and up to two quotes of the text in
front of them. -/
def closing? (quote : Char) (s : Text) : Option (Text × Text) :=
  let run := s.takeWhile (· == quote)
  if run.length < 3 then none
  else
    let own := min (run.length - 3) 2
    some (List.replicate own quote, s.drop (own + 3))

theorem length_closing?_lt {quote : Char} {s t rest : Text}
    (h : closing? quote s = some (t, rest)) : rest.length < s.length := by
  unfold closing? at h
  simp only at h
  split at h
  · cases h
  · have happ := congrArg List.length (List.takeWhile_append_dropWhile (p := (· == quote)) (l := s))
    simp only [Option.some.injEq, Prod.mk.injEq] at h
    rw [List.length_append] at happ
    rw [← h.2, List.length_drop]
    omega

/-- The text from its first character on that is no blank and begins no line end. -/
def skipLines : Text → Text
  | [] => []
  | '\r' :: '\n' :: r => skipLines r
  | c :: r => if isSpace c || c == '\n' then skipLines r else c :: r

theorem length_skipLines_le (s : Text) : (skipLines s).length ≤ s.length := by
  fun_induction skipLines s with
  | case1 => exact Nat.le_refl _
  | case2 r ih =>
    simp only [List.length_cons]
    omega
  | case3 c r _ _ ih => exact Nat.le_succ_of_le ih
  | case4 => exact Nat.le_refl _

/-- The text behind a line that ends in a backslash: blanks and line ends are passed over up to the
next other character. -/
def continued? (s : Text) : Option Text := (newline? (skipSpaces s)).map skipLines

theorem length_continued?_lt {s rest : Text} (h : continued? s = some rest) :
    rest.length < s.length := by
  unfold continued? at h
  simp only [Option.map_eq_some_iff] at h
  obtain ⟨r, hr, rfl⟩ := h
  have := length_newline?_lt hr
  have := length_skipSpaces_le s
  have := length_skipLines_le r
  omega

/-- Reads a text between threefold double quotes, from behind the opening ones and the line end
after them. -/
def basicLines? (s : Text) : Option (Text × Text) :=
  match closing? '"' s with
  | some result => some result
  | none =>
    match s with
    | [] => none
    | '\\' :: r =>
      match _h : escape? r with
      | some (c, rest) => (basicLines? rest).map fun (t, u) => (c :: t, u)
      | none =>
        match _h' : continued? r with
        | some rest => basicLines? rest
        | none => none
    | '\r' :: '\n' :: r => (basicLines? r).map fun (t, u) => ('\r' :: '\n' :: t, u)
    | c :: r =>
      if isPlain c || c == '\n' then (basicLines? r).map fun (t, u) => (c :: t, u) else none
termination_by s.length
decreasing_by
  · have := length_escape?_lt _h
    simp only [List.length_cons]
    omega
  · have := length_continued?_lt _h'
    simp only [List.length_cons]
    omega
  · simp only [List.length_cons]
    omega
  · simp

theorem length_basicLines?_lt {s t rest : Text} (h : basicLines? s = some (t, rest)) :
    rest.length < s.length := by
  fun_induction basicLines? s generalizing t rest with
  | case1 s result e =>
    cases h
    exact length_closing?_lt e
  | case2 => cases h
  | case3 r c u e _ ih =>
    simp only [Option.map_eq_some_iff] at h
    obtain ⟨⟨v, w⟩, hv, e'⟩ := h
    cases e'
    have := length_escape?_lt e
    have := ih hv
    simp only [List.length_cons]
    omega
  | case4 r _ u e _ ih =>
    have := length_continued?_lt e
    have := ih h
    simp only [List.length_cons]
    omega
  | case5 => cases h
  | case6 r _ ih =>
    simp only [Option.map_eq_some_iff] at h
    obtain ⟨⟨v, w⟩, hv, e'⟩ := h
    cases e'
    have := ih hv
    simp only [List.length_cons]
    omega
  | case7 c r _ _ _ _ ih =>
    simp only [Option.map_eq_some_iff] at h
    obtain ⟨⟨v, w⟩, hv, e'⟩ := h
    cases e'
    exact Nat.lt_succ_of_lt (ih hv)
  | case8 => cases h

/-- Reads a text between threefold single quotes, from behind the opening ones and the line end
after them. -/
def literalLines? (s : Text) : Option (Text × Text) :=
  match closing? '\'' s with
  | some result => some result
  | none =>
    match s with
    | [] => none
    | '\r' :: '\n' :: r => (literalLines? r).map fun (t, u) => ('\r' :: '\n' :: t, u)
    | c :: r =>
      if isPlain c || c == '\n' then (literalLines? r).map fun (t, u) => (c :: t, u) else none
termination_by s.length
decreasing_by
  · simp only [List.length_cons]
    omega
  · simp

theorem length_literalLines?_lt {s t rest : Text} (h : literalLines? s = some (t, rest)) :
    rest.length < s.length := by
  fun_induction literalLines? s generalizing t rest with
  | case1 s result e =>
    cases h
    exact length_closing?_lt e
  | case2 => cases h
  | case3 r _ ih =>
    simp only [Option.map_eq_some_iff] at h
    obtain ⟨⟨v, w⟩, hv, e'⟩ := h
    cases e'
    have := ih hv
    simp only [List.length_cons]
    omega
  | case4 c r _ _ _ ih =>
    simp only [Option.map_eq_some_iff] at h
    obtain ⟨⟨v, w⟩, hv, e'⟩ := h
    cases e'
    exact Nat.lt_succ_of_lt (ih hv)
  | case5 => cases h

/-- A text of several lines does not begin with the line end behind its opening quotes. -/
def skipFirstNewline (s : Text) : Text := (newline? s).getD s

theorem length_skipFirstNewline_le (s : Text) : (skipFirstNewline s).length ≤ s.length := by
  unfold skipFirstNewline
  cases e : newline? s with
  | none => exact Nat.le_refl _
  | some r => exact Nat.le_of_lt (length_newline?_lt e)

/-- Reads a quoted text of any of the four forms. -/
def read? : Text → Option (Text × Text)
  | '"' :: '"' :: '"' :: r => basicLines? (skipFirstNewline r)
  | '\'' :: '\'' :: '\'' :: r => literalLines? (skipFirstNewline r)
  | '"' :: r => basic? r
  | '\'' :: r => literal? r
  | _ => none

theorem length_read?_lt {s t rest : Text} (h : read? s = some (t, rest)) :
    rest.length < s.length := by
  unfold read? at h
  split at h
  · next r =>
    have := length_basicLines?_lt h
    have := length_skipFirstNewline_le r
    simp only [List.length_cons]
    omega
  · next r =>
    have := length_literalLines?_lt h
    have := length_skipFirstNewline_le r
    simp only [List.length_cons]
    omega
  · exact Nat.lt_succ_of_lt (length_basic?_lt h)
  · exact Nat.lt_succ_of_lt (length_literal?_lt h)
  · cases h

end Typings.Toml.Quoted
