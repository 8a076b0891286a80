import Typings.Markup.Event
import Typings.Markup.Reference

/-! # Tag names and attributes -/

namespace Typings.Markup.Tag

/-- The characters that a tag name may hold. -/
def isNameChar (c : Char) : Bool := !(Text.isBlank c || c == '/')

/-- The name of a tag, from what stands between its angle brackets. -/
def name (inner : Text) : Text := Text.toLower (inner.takeWhile isNameChar)

/-- The characters that an attribute name may hold. -/
def isAttributeNameChar (c : Char) : Bool :=
  !(Text.isBlank c || c == '"' || c == '\'' || c == '=' || c == '/' || c == '>')

/-- The characters that a value may hold outside quotes. -/
def isUnquotedChar (c : Char) : Bool :=
  !(Text.isBlank c || c == '"' || c == '\'' || c == '=' || c == '<' || c == '>' || c == '\x60')

/-- Reads a text up to a closing quote. -/
def quoted? (quote : Char) (s : Text) : Option (Text × Text) :=
  match s.dropWhile (· != quote) with
  | [] => none
  | _ :: rest => some (s.takeWhile (· != quote), rest)

/-- Reads an equals sign and a value, each after any blanks. -/
def value? (s : Text) : Option (Text × Text) :=
  match Text.trimStart s with
  | '=' :: r =>
    match Text.trimStart r with
    | '"' :: q => quoted? '"' q
    | '\'' :: q => quoted? '\'' q
    | v =>
      if (v.takeWhile isUnquotedChar).isEmpty then none
      else some (v.takeWhile isUnquotedChar, v.dropWhile isUnquotedChar)
  | _ => none

theorem length_quoted?_le {q : Char} {s v rest : Text} (h : quoted? q s = some (v, rest)) :
    rest.length ≤ s.length := by
  unfold quoted? at h
  split at h
  · cases h
  · next t e =>
    cases h
    have := Text.length_dropWhile_le (· != q) s
    rw [e] at this
    simp only [List.length_cons] at this
    omega

theorem length_value?_le {s v rest : Text} (h : value? s = some (v, rest)) :
    rest.length ≤ s.length := by
  unfold value? at h
  have hs : (Text.trimStart s).length ≤ s.length := Text.length_dropWhile_le _ s
  split at h
  · next r e =>
    rw [e] at hs
    have hr : (Text.trimStart r).length ≤ r.length := Text.length_dropWhile_le _ r
    simp only [List.length_cons] at hs
    split at h
    · next q e' =>
      have := length_quoted?_le h
      simp only [e', List.length_cons] at hr
      omega
    · next q e' =>
      have := length_quoted?_le h
      simp only [e', List.length_cons] at hr
      omega
    · split at h
      · cases h
      · cases h
        have := Text.length_dropWhile_le isUnquotedChar (Text.trimStart r)
        omega
  · cases h

/-- The attributes in the part of a tag behind its name. Whatever begins no attribute is passed
over, and an attribute without a readable value has the empty one. -/
def attributes (s : Text) : List Attribute :=
  match _h : s.dropWhile (!isAttributeNameChar ·) with
  | [] => []
  | c :: r =>
    let label := Text.toLower (c :: r.takeWhile isAttributeNameChar)
    match _hv : value? (r.dropWhile isAttributeNameChar) with
    | some (value, rest) => ⟨label, Reference.decode value⟩ :: attributes rest
    | none => ⟨label, []⟩ :: attributes (r.dropWhile isAttributeNameChar)
termination_by s.length
decreasing_by
  all_goals
    have hs := Text.length_dropWhile_le (!isAttributeNameChar ·) s
    have hr := Text.length_dropWhile_le isAttributeNameChar r
    rw [_h] at hs
    simp only [List.length_cons] at hs
  · have := length_value?_le _hv
    omega
  · omega

/-- The start tag with this text between its angle brackets. -/
def startEvent (inner : Text) : Event :=
  .startTag (name inner) (attributes (inner.dropWhile isNameChar))

/-- The end tag with this text between its slash and its closing bracket. -/
def endEvent (inner : Text) : Event := .endTag (name inner)

end Typings.Markup.Tag
