import Typings.Json.Number

/-! # Reading JSON as a type

A reader looks at a text once, from left to right, and refuses it at the first place that does not
fit: what comes later has no say in why a text is refused. -/

namespace Typings.Json

/-- A reader takes a value off the front of a text. -/
abbrev Reader (α : Type) := Text → Except Refusal (α × Text)

namespace Reader

def isSpace (c : Char) : Bool := c == ' ' || c == '\n' || c == '\t' || c == '\r'

/-- The text from its first character on that is no space. -/
def skipSpaces (s : Text) : Text := s.dropWhile isSpace

/-- Takes a given word off the front of a text. -/
def literal : Text → Text → Except Refusal Text
  | [], s => .ok s
  | _ :: _, [] => .error .truncated
  | c :: w, d :: r => if c = d then literal w r else .error .malformed

/-- The refusal of a result that was not asked for. -/
def refuse {α : Type} (result : Except Refusal α) : Refusal :=
  match result with
  | .error e => e
  | .ok _ => .mismatch

/-- Why the value at the front of a text is refused where another type is asked for. A text or a
number must be sound to be refused for its type; an array or object need only begin. -/
def wrongType (s : Text) : Refusal :=
  match s with
  | [] => .malformed
  | c :: r =>
    if c = 'n' then refuse (literal "ull".toList r)
    else if c = 't' then refuse (literal "rue".toList r)
    else if c = 'f' then refuse (literal "alse".toList r)
    else if c = '"' then refuse (Quoted.readBody r)
    else if c = '-' ∨ c.isDigit then refuse (Number.read s)
    else if c = '[' ∨ c = '{' then .mismatch
    else .malformed

/-- Reads a quoted text. -/
def text : Reader Text := fun s =>
  match skipSpaces s with
  | [] => .error .truncated
  | '"' :: r => Quoted.readBody r
  | t => .error (wrongType t)

/-- Reads a count, which is below `2 ^ 64`. -/
def count : Reader Nat := fun s =>
  match skipSpaces s with
  | [] => .error .truncated
  | c :: r =>
    if c = '-' ∨ c.isDigit then
      match Number.read (c :: r) with
      | .error e => .error e
      | .ok (.natural n, rest) => .ok (n, rest)
      | .ok (.other, _) => .error .mismatch
    else .error (wrongType (c :: r))

/-- Reads `null`. -/
def null : Reader Unit := fun s =>
  match skipSpaces s with
  | [] => .error .truncated
  | 'n' :: r => (literal "ull".toList r).map ((), ·)
  | t => .error (wrongType t)

/-- Reads a value or `null`. -/
def optional {α : Type} (value : Reader α) : Reader (Option α) := fun s =>
  match skipSpaces s with
  | 'n' :: r => (literal "ull".toList r).map (none, ·)
  | t => (value t).map fun (a, rest) => (some a, rest)

/-! ## Arrays -/

/-- Whether an array goes on, and the text from its next item or its closing bracket on. -/
def moreItems (first : Bool) : Reader Bool := fun s =>
  match skipSpaces s with
  | [] => .error .truncated
  | ']' :: r => .ok (false, ']' :: r)
  | c :: r =>
    if first then .ok (true, c :: r)
    else if c = ',' then
      match skipSpaces r with
      | [] => .error .truncated
      | ']' :: _ => .error .malformed
      | t => .ok (true, t)
    else .error .malformed

/-- Takes a closing bracket off the front of a text. -/
def close (bracket : Char) : Reader Unit := fun s =>
  match skipSpaces s with
  | [] => .error .truncated
  | c :: r => if c = bracket then .ok ((), r) else .error .malformed

/-- Reads items up to the closing bracket. An item that takes nothing off the text is refused. -/
def items {α : Type} (item : Reader α) (first : Bool) (s : Text) :
    Except Refusal (List α × Text) :=
  match moreItems first s with
  | .error e => .error e
  | .ok (false, rest) => .ok ([], rest)
  | .ok (true, t) =>
    match item t with
    | .error e => .error e
    | .ok (a, rest) =>
      if rest.length < s.length then (items item false rest).map fun (as, last) => (a :: as, last)
      else .error .malformed
termination_by s.length

/-- Reads an array of items of one type. -/
def list {α : Type} (item : Reader α) : Reader (List α) := fun s =>
  match skipSpaces s with
  | [] => .error .truncated
  | '[' :: r => do
    let (as, rest) ← items item true r
    let (_, rest) ← close ']' rest
    .ok (as, rest)
  | t => .error (wrongType t)

/-! ## Passing over a value -/

inductive Frame where
  | array
  | object
deriving DecidableEq, Repr

/-- Passes over a colon. -/
def skipColon (s : Text) : Except Refusal Text :=
  match skipSpaces s with
  | [] => .error .truncated
  | c :: r => if c = ':' then .ok r else .error .malformed

/-- Passes over a key and its colon. -/
def skipKey (s : Text) : Except Refusal Text :=
  match skipSpaces s with
  | [] => .error .truncated
  | c :: r => if c = '"' then (Quoted.skipBody r).bind skipColon else .error .malformed

/-- Passes over a value that is no array and no object. -/
def skipScalar (s : Text) : Except Refusal Text :=
  match s with
  | [] => .error .truncated
  | c :: r =>
    if c = 'n' then literal "ull".toList r
    else if c = 't' then literal "rue".toList r
    else if c = 'f' then literal "alse".toList r
    else if c = '"' then Quoted.skipBody r
    else if c = '-' ∨ c.isDigit then Number.skip s
    else .error .malformed

theorem length_literal_le {w s rest : Text} (h : literal w s = .ok rest) :
    rest.length ≤ s.length := by
  fun_induction literal w s with
  | case1 => cases h; exact Nat.le_refl _
  | case2 => cases h
  | case3 c w r ih =>
    have := ih h
    simp only [List.length_cons]
    omega
  | case4 => cases h

theorem length_skipSpaces_le (s : Text) : (skipSpaces s).length ≤ s.length :=
  Text.length_dropWhile_le _ s

theorem length_skipColon_lt {s rest : Text} (h : skipColon s = .ok rest) :
    rest.length < s.length := by
  have hs := length_skipSpaces_le s
  unfold skipColon at h
  split at h
  · cases h
  · next e =>
    rw [e] at hs
    split at h <;> cases h
    simp only [List.length_cons] at hs
    omega

theorem length_skipKey_lt {s rest : Text} (h : skipKey s = .ok rest) :
    rest.length < s.length := by
  have hs := length_skipSpaces_le s
  unfold skipKey at h
  split at h
  · cases h
  · next c r e =>
    rw [e] at hs
    split at h
    · cases eb : Quoted.skipBody r with
      | error x => rw [eb] at h; cases h
      | ok t =>
        rw [eb] at h
        have := Quoted.length_skipBody_lt eb
        have := length_skipColon_lt h
        simp only [List.length_cons] at hs
        omega
    · cases h

theorem length_skipScalar_lt {s rest : Text} (h : skipScalar s = .ok rest) :
    rest.length < s.length := by
  unfold skipScalar at h
  split at h
  · cases h
  · repeat' split at h
    · have := length_literal_le h
      simp only [List.length_cons]
      omega
    · have := length_literal_le h
      simp only [List.length_cons]
      omega
    · have := length_literal_le h
      simp only [List.length_cons]
      omega
    · have := Quoted.length_skipBody_lt h
      simp only [List.length_cons]
      omega
    · exact Number.length_skip_lt h
    · cases h

/-- Passes over the rest of a value, given the arrays and objects that are open around the place.
Either a value is due there (`due`), or one has just ended. -/
def skipFrom (due : Bool) (open' : List Frame) (s : Text) : Except Refusal Text :=
  if due then
    match _h : skipSpaces s with
    | '[' :: r =>
      match _h' : skipSpaces r with
      | [] => .error .truncated
      | c :: t =>
        if c = ']' then skipFrom false open' t else skipFrom true (.array :: open') (c :: t)
    | '{' :: r =>
      match _h' : skipSpaces r with
      | [] => .error .truncated
      | c :: t =>
        if c = '}' then skipFrom false open' t
        else
          match _hk : skipKey (c :: t) with
          | .error e => .error e
          | .ok rest => skipFrom true (.object :: open') rest
    | t =>
      match _hv : skipScalar t with
      | .error e => .error e
      | .ok rest => skipFrom false open' rest
  else
    match open' with
    | [] => .ok s
    | frame :: outer =>
      match _h : skipSpaces s with
      | [] => .error .truncated
      | c :: r =>
        if c = ',' then
          match frame with
          | .array => skipFrom true open' r
          | .object =>
            match _hk : skipKey r with
            | .error e => .error e
            | .ok rest => skipFrom true open' rest
        else if c = (match frame with | .array => ']' | .object => '}') then skipFrom false outer r
        else .error .malformed
termination_by s.length
decreasing_by
  all_goals
    have hs := length_skipSpaces_le s
    simp only [_h, List.length_cons] at hs
  any_goals
    have hr := length_skipSpaces_le r
    simp only [_h', List.length_cons] at hr
  any_goals
    have hk := length_skipKey_lt _hk
    try simp only [List.length_cons] at hk
  any_goals
    have hv := length_skipScalar_lt _hv
  all_goals
    try simp only [List.length_cons]
    omega

/-- Passes over a value of any type. -/
def skipValue (s : Text) : Except Refusal Text := skipFrom true [] s

/-! ## Structures -/

/-- A field of a structure that is being read, whose fields so far are in `σ`. -/
structure Field (σ : Type) where
  key : Text
  isSet : σ → Bool
  read : σ → Reader σ
  /-- What stands in for the field at the end of an array that is too short, if anything does. -/
  absent : σ → Option σ

/-- A field that is kept at one place of the state, and the value that stands in for it at the end
of an array. -/
def Field.at {σ β : Type} (key : String) (get : σ → Option β) (set : σ → β → σ) (value : Reader β)
    (default : Option β) : Field σ where
  key := key.toList
  isSet state := (get state).isSome
  read state s := (value s).map fun (b, rest) => (set state b, rest)
  absent state := default.map (set state)

/-- How a structure is read: as an object, in any order and past unknown keys, or as the array of
its fields. -/
structure Shape (σ α : Type) where
  fields : List (Field σ)
  start : σ
  /-- The structure, unless a field is missing. -/
  finish : σ → Option α

/-- Reads the next key of an object, if there is one. -/
def key (first : Bool) : Reader (Option Text) := fun s =>
  let quoted (t : Text) : Except Refusal (Option Text × Text) :=
    match t with
    | [] => .error .truncated
    | c :: r =>
      if c = '"' then (Quoted.readBody r).map fun (k, rest) => (some k, rest) else .error .malformed
  match skipSpaces s with
  | [] => .error .truncated
  | c :: r =>
    if c = '}' then .ok (none, c :: r)
    else if first then quoted (c :: r)
    else if c = ',' then quoted (skipSpaces r)
    else .error .malformed

/-- Reads the value of a key, from its colon on. A key that is set already is refused before its
value is looked at. -/
def value {σ : Type} (fields : List (Field σ)) (state : σ) (name : Text) (s : Text) :
    Except Refusal (σ × Text) :=
  match fields.find? (·.key == name) with
  | none => do
    let rest ← skipColon s
    let rest ← skipValue rest
    .ok (state, rest)
  | some f =>
    if f.isSet state then .error .mismatch
    else do
      let rest ← skipColon s
      f.read state rest

/-- Reads keys and values up to the closing brace. -/
def members {σ : Type} (fields : List (Field σ)) (first : Bool) (state : σ) (s : Text) :
    Except Refusal (σ × Text) :=
  match key first s with
  | .error e => .error e
  | .ok (none, rest) => .ok (state, rest)
  | .ok (some name, t) =>
    match value fields state name t with
    | .error e => .error e
    | .ok (state, rest) =>
      if rest.length < s.length then members fields false state rest else .error .malformed
termination_by s.length

/-- Reads fields in order. -/
def positional {σ : Type} : List (Field σ) → Bool → σ → Text → Except Refusal (σ × Text)
  | [], _, state, s => .ok (state, s)
  | f :: fs, first, state, s =>
    match moreItems first s with
    | .error e => .error e
    | .ok (true, t) => do
      let (state, rest) ← f.read state t
      positional fs false state rest
    | .ok (false, t) =>
      match f.absent state with
      | none => .error .mismatch
      | some state => positional fs first state t

/-- Reads a structure. -/
def shape {σ α : Type} (sh : Shape σ α) : Reader α := fun s =>
  match skipSpaces s with
  | [] => .error .truncated
  | c :: r =>
    if c = '[' then do
      let (state, rest) ← positional sh.fields true sh.start r
      match sh.finish state with
      | none => .error .mismatch
      | some a => (close ']' rest).map fun (_, last) => (a, last)
    else if c = '{' then do
      let (state, rest) ← members sh.fields true sh.start r
      match sh.finish state with
      | none => .error .mismatch
      | some a => (close '}' rest).map fun (_, last) => (a, last)
    else .error (wrongType (c :: r))

/-- Reads a quoted name, where nothing else may stand. -/
def quotedName {α : Type} (names : Text → Option α) : Reader α := fun s =>
  match skipSpaces s with
  | [] => .error .truncated
  | c :: r =>
    if c = '"' then do
      let (name, rest) ← Quoted.readBody r
      match names name with
      | none => .error .mismatch
      | some a => .ok (a, rest)
    else .error .malformed

/-- Reads one of several names: a quoted name, or an object with the name as its only key and
`null` as its value. -/
def choice {α : Type} (names : Text → Option α) : Reader α := fun s =>
  match skipSpaces s with
  | '{' :: r => do
    let (a, rest) ← quotedName names r
    let rest ← skipColon rest
    let (_, rest) ← null rest
    (close '}' rest).map fun (_, last) => (a, last)
  | t => quotedName names t

end Reader

/-- Reads a text that is one value. -/
def read {α : Type} (value : Reader α) (s : Text) : Except Refusal α :=
  match value s with
  | .error e => .error e
  | .ok (a, rest) => if (Reader.skipSpaces rest).isEmpty then .ok a else .error .malformed

end Typings.Json
