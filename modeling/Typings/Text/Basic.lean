/-! # Text, blanks and words -/

namespace Typings

/-- A text is the list of its characters, so that every reader is a recursion on its data. -/
abbrev Text := List Char

namespace Text

/-- The blank characters are those with the `White_Space` property of the Unicode standard. -/
def isBlank (c : Char) : Bool :=
  let n := c.toNat
  n == 0x20 || (0x09 ≤ n && n ≤ 0x0D) || n == 0x85 || n == 0xA0 || n == 0x1680 ||
    (0x2000 ≤ n && n ≤ 0x200A) || n == 0x2028 || n == 0x2029 || n == 0x202F || n == 0x205F ||
    n == 0x3000

/-- The text without its leading blanks. -/
def trimStart (s : Text) : Text := s.dropWhile isBlank

/-- The text without its trailing blanks. -/
def trimEnd (s : Text) : Text := (s.reverse.dropWhile isBlank).reverse

/-- The text without the blanks at either end. -/
def trim (s : Text) : Text := trimEnd (trimStart s)

/-- A blank text holds no character but blanks. -/
def isBlankText (s : Text) : Bool := s.all isBlank

/-- The first word, which is empty for a blank text. -/
def firstWord (s : Text) : Text := (trimStart s).takeWhile (!isBlank ·)

/-- The letters of the English alphabet, of either case. -/
def isLetter (c : Char) : Bool := c.isAlpha

/-- Letter case outside the English alphabet is left alone. -/
def toLower (s : Text) : Text := s.map Char.toLower

/-- Two texts agree up to the case of English letters. -/
def eqIgnoringCase (s t : Text) : Bool := toLower s == toLower t

/-- The number of bytes of a text. -/
def byteLength (s : Text) : Nat := s.foldr (fun c n => c.utf8Size + n) 0

/-- The order of texts by code points. -/
def le : Text → Text → Bool
  | [], _ => true
  | _ :: _, [] => false
  | a :: s, b :: t => a.toNat < b.toNat || (a == b && le s t)

/-- Splits the text in front of the first position at which `stop` holds of what follows.
Where there is none the second part is empty. -/
def breakAt (stop : Text → Bool) : Text → Text × Text
  | [] => ([], [])
  | c :: r =>
    if stop (c :: r) then ([], c :: r)
    else (c :: (breakAt stop r).1, (breakAt stop r).2)

/-- Splits the text in front of the first occurrence of `pattern`. -/
def breakOn (pattern s : Text) : Text × Text := breakAt pattern.isPrefixOf s

theorem breakAt_append (stop : Text → Bool) (s : Text) :
    (breakAt stop s).1 ++ (breakAt stop s).2 = s := by
  induction s with
  | nil => rfl
  | cons c r ih =>
    unfold breakAt
    split
    · rfl
    · simp [ih]

theorem length_breakAt_snd_le (stop : Text → Bool) (s : Text) :
    (breakAt stop s).2.length ≤ s.length := by
  have h := congrArg List.length (breakAt_append stop s)
  simp only [List.length_append] at h
  omega

theorem length_dropWhile_le (p : Char → Bool) (s : Text) : (s.dropWhile p).length ≤ s.length :=
  (List.dropWhile_sublist p).length_le

/-- Puts a character in front of the first text of a list. -/
def consFirst (c : Char) : List Text → List Text
  | [] => [[c]]
  | s :: ss => (c :: s) :: ss

end Text

end Typings
