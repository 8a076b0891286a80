import Typings.Toml.Quoted

/-! # Keys in TOML -/

namespace Typings.Toml

/-- A key with the keys of the tables that it is below. -/
structure KeyPath where
  parents : List Text
  key : Text
deriving DecidableEq, Repr

namespace KeyPath

/-- All keys of a path, from the outermost to the innermost. -/
def keys (p : KeyPath) : List Text := p.parents ++ [p.key]

/-- The path below one more table. -/
def below (parent : Text) (p : KeyPath) : KeyPath := { p with parents := parent :: p.parents }

/-- The characters of keys without quotes. -/
def isBare (c : Char) : Bool := c.isAlphanum || c == '_' || c == '-'

/-- Reads one key. -/
def single? : Text → Option (Text × Text)
  | '"' :: r => Quoted.basic? r
  | '\'' :: r => Quoted.literal? r
  | s =>
    if (s.takeWhile isBare).isEmpty then none
    else some (s.takeWhile isBare, s.dropWhile isBare)

theorem length_single?_lt {key s rest : Text} (h : single? s = some (key, rest)) :
    rest.length < s.length := by
  unfold single? at h
  split at h
  · exact Nat.lt_succ_of_lt (Quoted.length_basic?_lt h)
  · exact Nat.lt_succ_of_lt (Quoted.length_literal?_lt h)
  · split at h
    · cases h
    · next hne =>
      simp only [Option.some.injEq, Prod.mk.injEq] at h
      have happ := congrArg List.length (List.takeWhile_append_dropWhile (p := isBare) (l := s))
      have hpos : 0 < (s.takeWhile isBare).length := by
        rw [List.length_pos_iff]
        simpa using hne
      rw [List.length_append] at happ
      rw [← h.2]
      omega

/-- Reads keys with dots between them, however many, and the blanks around them. -/
def chain? (s : Text) : Option (KeyPath × Text) :=
  match _h : single? (skipSpaces s) with
  | none => none
  | some (key, r) =>
    match _hr : skipSpaces r with
    | '.' :: t => (chain? t).map fun (p, u) => (p.below key, u)
    | t => some (⟨[], key⟩, t)
termination_by s.length
decreasing_by
  have hs := length_skipSpaces_le s
  have hk := length_single?_lt _h
  have ht := length_skipSpaces_le r
  rw [_hr] at ht
  simp only [List.length_cons] at ht
  omega

theorem length_chain?_lt {p : KeyPath} {s rest : Text} (h : chain? s = some (p, rest)) :
    rest.length < s.length := by
  fun_induction chain? s generalizing p rest with
  | case1 => cases h
  | case2 s key r hk t ht ih =>
    have hs := length_skipSpaces_le s
    have hk := length_single?_lt hk
    have hr := length_skipSpaces_le r
    simp only [Option.map_eq_some_iff] at h
    obtain ⟨⟨q, u⟩, hq, e⟩ := h
    simp only [Prod.mk.injEq] at e
    have := ih hq
    rw [← e.2]
    rw [ht] at hr
    simp only [List.length_cons] at hr
    omega
  | case3 s key r hk t =>
    have hs := length_skipSpaces_le s
    have hk := length_single?_lt hk
    have hr := length_skipSpaces_le r
    cases h
    omega

/-- The number of keys that a path may have. -/
def maxKeys : Nat := 80

/-- Reads a path of keys, which is not too long. -/
def read? (s : Text) : Option (KeyPath × Text) :=
  (chain? s).filter fun (p, _) => p.keys.length ≤ maxKeys

theorem length_read?_lt {p : KeyPath} {s rest : Text} (h : read? s = some (p, rest)) :
    rest.length < s.length :=
  length_chain?_lt (Option.filter_eq_some_iff.1 h).1

end KeyPath

end Typings.Toml
