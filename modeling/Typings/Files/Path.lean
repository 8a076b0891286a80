import Typings.Text.Basic

/-! # Paths -/

namespace Typings

/-- A path is written with `/` between names, and is kept as written. -/
abbrev Path := Text

namespace Path

def isAbsolute (p : Path) : Bool := p.head? == some '/'

/-- A path taken from a base directory. An absolute path stands for itself. -/
def join (base p : Path) : Path :=
  if isAbsolute p || base.isEmpty then p
  else if base.getLast? == some '/' then base ++ p
  else base ++ '/' :: p

/-- Cuts slashes and names `.` off the end of a reversed path, but neither the root nor a path that
is just `.`. -/
def trimTail : Text → Text
  | '.' :: '/' :: r => trimTail ('/' :: r)
  | ['/'] => ['/']
  | '/' :: r => trimTail r
  | s => s
termination_by s => s.length

theorem length_trimTail_le (s : Text) : (trimTail s).length ≤ s.length := by
  fun_induction trimTail s with
  | case1 r ih => simp only [List.length_cons] at ih ⊢; omega
  | case2 => simp
  | case3 r _ ih => simp only [List.length_cons]; omega
  | case4 => simp

/-- The path without its last name, and without slashes and names `.` at its end. The root and
the empty path have no last name. -/
def parent? (p : Path) : Option Path :=
  match trimTail p.reverse with
  | [] => none
  | ['/'] => none
  | c :: r => some (trimTail ((c :: r).dropWhile (· != '/'))).reverse

theorem length_parent?_lt {p q : Path} (h : parent? p = some q) : q.length < p.length := by
  unfold parent? at h
  have hp := length_trimTail_le p.reverse
  split at h
  · cases h
  · cases h
  · next c r hne e =>
    simp only [Option.some.injEq] at h
    have h1 := length_trimTail_le ((c :: r).dropWhile (· != '/'))
    have h2 := Text.length_dropWhile_le (· != '/') r
    rw [e] at hp
    simp only [List.length_cons, List.length_reverse] at hp
    rw [← h, List.length_reverse]
    by_cases hc : c = '/'
    · subst hc
      have : trimTail p.reverse ≠ '/' :: r := by
        have key : ∀ s : Text, ∀ d t, trimTail s = '/' :: d :: t → False := by
          intro s
          fun_induction trimTail s with
          | case1 r ih => exact ih
          | case2 => simp
          | case3 r _ ih => exact ih
          | case4 s h1 h2 h3 =>
            intro d t hs
            exact h3 _ hs
        intro hr
        cases r with
        | nil => exact hne rfl rfl
        | cons d t => exact key _ _ _ hr
      exact absurd e this
    · have hd : (c :: r).dropWhile (· != '/') = r.dropWhile (· != '/') := by simp [hc]
      rw [hd] at h1 ⊢
      omega

/-- The part of a file name behind its last dot. A name without a dot, or with its only dot in
front, has none. -/
def extension? (name : Text) : Option Text :=
  if name = "..".toList then none
  else
    match name.reverse.dropWhile (· != '.') with
    | [] | [_] => none
    | _ => some (name.reverse.takeWhile (· != '.')).reverse

/-- Splits a path at its slashes. -/
def pieces : Path → List Text
  | [] => [[]]
  | c :: r => if c == '/' then [] :: pieces r else Text.consFirst c (pieces r)

/-- The names in a path, from its start to its end. -/
def names (p : Path) : List Text := (pieces p).filter (!·.isEmpty)

def endsInSlash (p : Path) : Bool := p.getLast? == some '/'

end Path

end Typings
