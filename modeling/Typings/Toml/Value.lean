import Typings.Toml.Node
import Typings.Toml.Scalar

/-! # Values in TOML -/

namespace Typings.Toml

/-- What is left of a text behind something that was read from its front. -/
abbrev Rest (s : Text) := { r : Text // r.length < s.length }

/-- Reads a value that holds no others. -/
def plain? (s : Text) : Option (Node × Rest s) :=
  match h : Quoted.read? s with
  | some (t, rest) => some (.text t, ⟨rest, Quoted.length_read?_lt h⟩)
  | none =>
    let (word, rest) := Scalar.split s
    if hw : rest.length < s.length then
      if word = "true".toList then some (.boolean true, ⟨rest, hw⟩)
      else if word = "false".toList then some (.boolean false, ⟨rest, hw⟩)
      else if Scalar.check word then some (.scalar word, ⟨rest, hw⟩)
      else none
    else none

mutual

/-- Reads a value in which there is room for arrays and tables in braces down to a given depth. -/
def valueWithin? (room : Nat) (s : Text) : Option (Node × Rest s) :=
  match s, room with
  | '[' :: _, 0 | '{' :: _, 0 => none
  | '[' :: r, room + 1 =>
    (items? room r).map fun (vs, t) => (.array vs, ⟨t.1, Nat.lt_succ_of_lt t.2⟩)
  | '{' :: r, room + 1 =>
    (pairs? room r).bind fun (ps, t) =>
      (Fields.ofPairs? ps).map fun fs => (.table .inline fs, ⟨t.1, Nat.lt_succ_of_lt t.2⟩)
  | s, _ => plain? s
termination_by 2 * s.length

/-- Reads the values of an array and the bracket behind them. -/
def items? (room : Nat) (s : Text) : Option (List Node × Rest s) :=
  match _h : skipTrivia? s with
  | none | some [] => none
  | some (c :: r) =>
    have hr := length_skipTrivia?_le _h
    if c = ']' then some ([], ⟨r, hr⟩)
    else
      match valueWithin? room (c :: r) with
      | none => none
      | some (v, t) =>
        match _ht : skipTrivia? t.1 with
        | some (',' :: u) =>
          (items? room u).map fun (vs, w) => (v :: vs, ⟨w.1, by
            have := length_skipTrivia?_le _ht
            have := w.2
            have := t.2
            simp only [List.length_cons] at *
            omega⟩)
        | some (']' :: u) => some ([v], ⟨u, by
            have := length_skipTrivia?_le _ht
            have := t.2
            simp only [List.length_cons] at *
            omega⟩)
        | _ => none
termination_by 2 * s.length + 1
decreasing_by
  · have := length_skipTrivia?_le _h
    omega
  · have := length_skipTrivia?_le _h
    have := length_skipTrivia?_le _ht
    have := t.2
    simp only [List.length_cons] at *
    omega

/-- Reads the keys and values of a table in braces and the brace behind them. -/
def pairs? (room : Nat) (s : Text) : Option (List (KeyPath × Node) × Rest s) :=
  match _h : skipTrivia? s with
  | none | some [] => none
  | some (c :: r) =>
    have hr := length_skipTrivia?_le _h
    if c = '}' then some ([], ⟨r, hr⟩)
    else
      match _hk : KeyPath.read? (c :: r) with
      | none => none
      | some (p, k) =>
        match _he : skipTrivia? k with
        | some ('=' :: e) =>
          match _hv : skipTrivia? e with
          | none => none
          | some x =>
            match valueWithin? room x with
            | none => none
            | some (v, t) =>
              match _ht : skipTrivia? t.1 with
              | some (',' :: u) =>
                (pairs? room u).map fun (ps, w) => ((p, v) :: ps, ⟨w.1, by
                  have := KeyPath.length_read?_lt _hk
                  have := length_skipTrivia?_le _he
                  have := length_skipTrivia?_le _hv
                  have := length_skipTrivia?_le _ht
                  have := w.2
                  have := t.2
                  simp only [List.length_cons] at *
                  omega⟩)
              | some ('}' :: u) => some ([(p, v)], ⟨u, by
                  have := KeyPath.length_read?_lt _hk
                  have := length_skipTrivia?_le _he
                  have := length_skipTrivia?_le _hv
                  have := length_skipTrivia?_le _ht
                  have := t.2
                  simp only [List.length_cons] at *
                  omega⟩)
              | _ => none
        | _ => none
termination_by 2 * s.length + 1
decreasing_by
  · have := length_skipTrivia?_le _h
    have := KeyPath.length_read?_lt _hk
    have := length_skipTrivia?_le _he
    have := length_skipTrivia?_le _hv
    simp only [List.length_cons] at *
    omega
  · have := length_skipTrivia?_le _h
    have := KeyPath.length_read?_lt _hk
    have := length_skipTrivia?_le _he
    have := length_skipTrivia?_le _hv
    have := length_skipTrivia?_le _ht
    have := t.2
    simp only [List.length_cons] at *
    omega

end

/-- The number of arrays and tables in braces that may stand one in the other. -/
def maxDepth : Nat := 80

/-- Reads a value. -/
def value? (s : Text) : Option (Node × Rest s) := valueWithin? maxDepth s

end Typings.Toml
