import Typings.Toml.Value

/-! # TOML documents

A document is read into statements, one for each header and each key, which then build up its
table. -/

namespace Typings.Toml

inductive Statement where
  /-- The header of a table. -/
  | table (path : KeyPath)
  /-- The header of one more table, in doubled brackets. -/
  | element (path : KeyPath)
  /-- A key of the table of the header above. -/
  | pair (path : KeyPath) (value : Node)

namespace Statement

/-- Takes a text off the front of a text. -/
def expect? (expected s : Text) : Option Text :=
  if expected.isPrefixOf s then some (s.drop expected.length) else none

/-- Reads one statement, from the first character of its line that is no blank. -/
def read? : Text → Option (Statement × Text)
  | '[' :: '[' :: r => do
    let (p, s) ← KeyPath.read? r
    let s ← expect? "]]".toList s
    return (.element p, s)
  | '[' :: r => do
    let (p, s) ← KeyPath.read? r
    let s ← expect? "]".toList s
    return (.table p, s)
  | s => do
    let (p, s) ← KeyPath.read? s
    let s ← expect? "=".toList s
    let (v, s) ← value? (skipSpaces s)
    return (.pair p v, s.1)

theorem length_expect?_le {expected s rest : Text} (h : expect? expected s = some rest) :
    rest.length ≤ s.length := by
  unfold expect? at h
  split at h
  · cases h
    rw [List.length_drop]
    omega
  · cases h

theorem length_read?_lt {st : Statement} {s rest : Text} (h : read? s = some (st, rest)) :
    rest.length < s.length := by
  unfold read? at h
  split at h
  · simp only [Option.bind_eq_bind, Option.bind_eq_some_iff, Prod.exists, Option.pure_def] at h
    obtain ⟨p, t, hp, u, hu, e⟩ := h
    cases e
    have := KeyPath.length_read?_lt hp
    have := length_expect?_le hu
    simp only [List.length_cons]
    omega
  · simp only [Option.bind_eq_bind, Option.bind_eq_some_iff, Prod.exists, Option.pure_def] at h
    obtain ⟨p, t, hp, u, hu, e⟩ := h
    cases e
    have := KeyPath.length_read?_lt hp
    have := length_expect?_le hu
    simp only [List.length_cons]
    omega
  · simp only [Option.bind_eq_bind, Option.bind_eq_some_iff, Prod.exists, Option.pure_def] at h
    obtain ⟨p, t, hp, u, hu, v, w, _, e⟩ := h
    cases e
    have := KeyPath.length_read?_lt hp
    have := length_expect?_le hu
    have := length_skipSpaces_le u
    have := w.2
    omega

/-- Reads the statements of a text, each on a line of its own. -/
def readAll? (s : Text) : Option (List Statement) :=
  match _h : skipTrivia? s with
  | none => none
  | some [] => some []
  | some (c :: r) =>
    match _hs : read? (c :: r) with
    | none => none
    | some (statement, t) =>
      match _he : endLine? t with
      | none => none
      | some rest => (readAll? rest).map (statement :: ·)
termination_by s.length
decreasing_by
  have := length_skipTrivia?_le _h
  have := length_read?_lt _hs
  have := length_endLine?_le _he
  omega

/-- What statements have built so far: the table of the document, and the keys that lead to the
table which the last header opened. -/
structure Progress where
  fields : Fields := []
  current : List Text := []

/-- Carries out a statement. -/
def carryOut? (p : Progress) : Statement → Option Progress
  | .table path => (p.fields.openTable? path).map fun fields => ⟨fields, path.keys⟩
  | .element path => (p.fields.openElement? path).map fun fields => ⟨fields, path.keys⟩
  | .pair path v =>
    (Fields.update? false (fun _ t => t.assign? path v) p.current .header p.fields).map
      fun fields => { p with fields }

end Statement

namespace Document

/-- A mark of the byte order may stand in front of a document. -/
def skipMark : Text → Text
  | '\uFEFF' :: r => r
  | s => s

/-- Reads the table that a document describes. -/
def read? (s : Text) : Option Fields := do
  let statements ← Statement.readAll? (skipMark s)
  let progress ← statements.foldlM Statement.carryOut? {}
  return progress.fields

end Document

end Typings.Toml
