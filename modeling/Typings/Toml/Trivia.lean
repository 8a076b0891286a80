import Typings.Text.Basic

/-! # Blanks, comments and line ends in TOML -/

namespace Typings.Toml

def isSpace (c : Char) : Bool := c == ' ' || c == '\t'

/-- The text from its first character on that is no space or tab. -/
def skipSpaces (s : Text) : Text := s.dropWhile isSpace

/-- The characters of comments: all but control characters, of which only the tab is one. -/
def isCommentChar (c : Char) : Bool := c == '\t' || (0x20 ≤ c.toNat && c.toNat != 0x7F)

/-- Takes a line feed, perhaps with a carriage return in front, off the front of a text. -/
def newline? : Text → Option Text
  | '\n' :: r => some r
  | '\r' :: '\n' :: r => some r
  | _ => none

/-- The text behind a comment, which ends with its line. -/
def skipComment : Text → Text
  | '#' :: r => r.dropWhile isCommentChar
  | s => s

/-- Takes the rest of a line, blank but for a comment, off the front of a text. -/
def endLine? (s : Text) : Option Text :=
  match skipComment (skipSpaces s) with
  | [] => some []
  | c :: r => newline? (c :: r)

theorem length_newline?_lt {s rest : Text} (h : newline? s = some rest) :
    rest.length < s.length := by
  unfold newline? at h
  split at h <;> cases h <;> simp only [List.length_cons] <;> omega

theorem length_skipSpaces_le (s : Text) : (skipSpaces s).length ≤ s.length :=
  Text.length_dropWhile_le _ s

theorem length_skipComment_le (s : Text) : (skipComment s).length ≤ s.length := by
  unfold skipComment
  split
  · next r =>
    have := Text.length_dropWhile_le isCommentChar r
    simp only [List.length_cons]
    omega
  · exact Nat.le_refl _

theorem length_endLine?_le {s rest : Text} (h : endLine? s = some rest) :
    rest.length ≤ s.length := by
  have hs := length_skipSpaces_le s
  have hc := length_skipComment_le (skipSpaces s)
  unfold endLine? at h
  split at h
  · cases h
    exact Nat.zero_le _
  · next e =>
    have := length_newline?_lt h
    rw [e] at hc
    omega

theorem length_endLine?_lt {s rest : Text} (hs : s ≠ []) (h : endLine? s = some rest) :
    rest.length < s.length := by
  have hd := length_skipSpaces_le s
  have hc := length_skipComment_le (skipSpaces s)
  unfold endLine? at h
  split at h
  · cases h
    exact List.length_pos_iff.mpr hs
  · next e =>
    have := length_newline?_lt h
    rw [e] at hc
    omega

/-- Takes blanks, line ends and comments off the front of a text. -/
def skipTrivia? (s : Text) : Option Text :=
  match _h : skipSpaces s with
  | [] => some []
  | c :: r =>
    if c = '#' ∨ c = '\n' ∨ c = '\r' then
      match _he : endLine? (c :: r) with
      | none => none
      | some rest => skipTrivia? rest
    else some (c :: r)
termination_by s.length
decreasing_by
  have hs := length_skipSpaces_le s
  have := length_endLine?_lt (List.cons_ne_nil c r) _he
  rw [_h] at hs
  omega

theorem length_skipTrivia?_le {s rest : Text} (h : skipTrivia? s = some rest) :
    rest.length ≤ s.length := by
  fun_induction skipTrivia? s with
  | case1 => cases h; exact Nat.zero_le _
  | case2 => cases h
  | case3 s c r e _ t he ih =>
    have hs := length_skipSpaces_le s
    have := length_endLine?_lt (List.cons_ne_nil c r) he
    have := ih h
    rw [e] at hs
    omega
  | case4 s c r e =>
    have hs := length_skipSpaces_le s
    cases h
    rw [e] at hs
    exact hs

end Typings.Toml
