import Typings.Markup.Tag

/-! # Markup tokens

A document is cut into tokens that together are the document, and each token that says something
gives one event. -/

namespace Typings.Markup

/-- The kinds of token. -/
inductive Token.Kind where
  | comment
  | declaration
  | instruction
  | startTag
  | endTag
  /-- Text whose character references are to be decoded. -/
  | text
  /-- The body of a script or style element, which is taken as it stands. -/
  | rawText
deriving DecidableEq, Repr

/-- A token with the stretch of the document that it covers. -/
structure Token where
  kind : Token.Kind
  source : Text
deriving DecidableEq, Repr

namespace Token

/-- Splits a text behind its first closing bracket. -/
def throughBracket? (s : Text) : Option (Text × Text) :=
  match s.dropWhile (· != '>') with
  | [] => none
  | c :: rest => some (s.takeWhile (· != '>') ++ [c], rest)

/-- The kind of construct that ends at the first closing bracket, from what follows its opening
bracket. -/
def bracketed? : Text → Option Kind
  | '!' :: c :: _ => if Text.isLetter c || c == '[' then some .declaration else none
  | '/' :: c :: _ => if Text.isLetter c then some .endTag else none
  | '?' :: _ => some .instruction
  | c :: _ => if Text.isLetter c then some .startTag else none
  | [] => none

/-- Splits a text behind the first `-->`. A comment that is not closed takes all of the text. -/
def throughComment (s : Text) : Text × Text :=
  let (body, rest) := Text.breakOn "-->".toList s
  (body ++ rest.take 3, rest.drop 3)

/-- The first token of a text that starts with an opening bracket, from what follows that bracket.
A bracket that opens nothing is text. -/
def afterBracket (r : Text) : Token × Text :=
  if "!--".toList.isPrefixOf r then
    let (source, rest) := throughComment (r.drop 3)
    (⟨.comment, '<' :: '!' :: '-' :: '-' :: source⟩, rest)
  else
    match bracketed? r, throughBracket? r with
    | some kind, some (source, rest) => (⟨kind, '<' :: source⟩, rest)
    | _, _ => (⟨.text, ['<']⟩, r)

/-- The first token of a text with this first character, and what follows the token. -/
def next (c : Char) (r : Text) : Token × Text :=
  if c == '<' then afterBracket r
  else (⟨.text, c :: r.takeWhile (· != '<')⟩, r.dropWhile (· != '<'))

/-- What stands between the brackets of a tag. -/
def inner (t : Token) : Text :=
  match t.kind with
  | .endTag => (t.source.drop 2).dropLast
  | _ => (t.source.drop 1).dropLast

/-- The event that a token gives. -/
def event? (t : Token) : Option Event :=
  match t.kind with
  | .comment | .declaration | .instruction => none
  | .startTag => some (Tag.startEvent t.inner)
  | .endTag => some (Tag.endEvent t.inner)
  | .text => some (.text (Reference.decode t.source))
  | .rawText => some (.text t.source)

/-- The elements whose body is not markup. -/
def isRawElement (name : Text) : Bool := name == "script".toList || name == "style".toList

/-- The name of the element whose raw body follows a token, if one does. -/
def opensRaw? (t : Token) : Option Text :=
  match t.kind with
  | .startTag => if isRawElement (Tag.name t.inner) then some (Tag.name t.inner) else none
  | _ => none

/-- A raw body ends where its end tag seems to begin: at `</` and the name in any letter case,
whatever follows the name. -/
def closesRaw (name s : Text) : Bool :=
  Text.eqIgnoringCase (s.take (name.length + 2)) ('<' :: '/' :: name)

/-- The token for the raw body of an element, if it is not empty, and what follows the body. -/
def rawBody (name s : Text) : List Token × Text :=
  let (body, rest) := Text.breakAt (closesRaw name) s
  (if body.isEmpty then [] else [⟨.rawText, body⟩], rest)

theorem throughBracket?_append {s source rest : Text}
    (h : throughBracket? s = some (source, rest)) : source ++ rest = s := by
  unfold throughBracket? at h
  split at h
  · cases h
  · next c t e =>
    cases h
    rw [List.append_assoc, List.singleton_append, ← e, List.takeWhile_append_dropWhile]

theorem throughComment_append (s : Text) : (throughComment s).1 ++ (throughComment s).2 = s := by
  simp [throughComment, Text.breakOn, Text.breakAt_append]

theorem afterBracket_append (r : Text) :
    (afterBracket r).1.source ++ (afterBracket r).2 = '<' :: r := by
  unfold afterBracket
  split
  · next h =>
    obtain ⟨t, rfl⟩ := List.isPrefixOf_iff_prefix.mp h
    simpa using throughComment_append t
  · split
    · next h =>
      simpa using throughBracket?_append h
    · rfl

theorem next_append (c : Char) (r : Text) : (next c r).1.source ++ (next c r).2 = c :: r := by
  unfold next
  split
  · next h =>
    rw [afterBracket_append, eq_of_beq h]
  · simp

theorem afterBracket_source_ne_nil (r : Text) : (afterBracket r).1.source ≠ [] := by
  unfold afterBracket
  split
  · simp
  · split <;> simp

theorem next_source_ne_nil (c : Char) (r : Text) : (next c r).1.source ≠ [] := by
  unfold next
  split
  · exact afterBracket_source_ne_nil r
  · simp

theorem length_next_lt (c : Char) (r : Text) : (next c r).2.length < (c :: r).length := by
  have h := congrArg List.length (next_append c r)
  have := List.length_pos_iff.mpr (next_source_ne_nil c r)
  simp only [List.length_append] at h
  omega

theorem length_rawBody_le (name s : Text) : (rawBody name s).2.length ≤ s.length :=
  Text.length_breakAt_snd_le _ s

/-- The tokens of a text. -/
def tokens : Text → List Token
  | [] => []
  | c :: r =>
    let rest := (next c r).2
    match opensRaw? (next c r).1 with
    | none => (next c r).1 :: tokens rest
    | some name => (next c r).1 :: (rawBody name rest).1 ++ tokens (rawBody name rest).2
termination_by s => s.length
decreasing_by
  · exact length_next_lt c r
  · exact Nat.lt_of_le_of_lt (length_rawBody_le _ _) (length_next_lt c r)

end Token

/-- The events of a document, in document order. -/
def events (markup : Text) : List Event := (Token.tokens markup).filterMap Token.event?

end Typings.Markup
