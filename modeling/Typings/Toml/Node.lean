import Typings.Toml.Key

/-! # Tables of TOML

A table may be written in several places. How it came about decides where. -/

namespace Typings.Toml

/-- How a table came about. -/
inductive Origin where
  /-- By a header of its own. -/
  | header
  /-- By the header of a table below it. -/
  | implied
  /-- By a key with dots. -/
  | dotted
  /-- By braces, all at once. -/
  | inline
deriving DecidableEq, Repr

/-- What a key stands for. -/
inductive Node where
  | text (s : Text)
  | boolean (b : Bool)
  /-- A number, a date or a time. -/
  | scalar (written : Text)
  | array (items : List Node)
  | table (origin : Origin) (fields : List (Text × Node))
  /-- Tables under one header in doubled brackets. Only the last of them can still grow. -/
  | tables (earlier : List (List (Text × Node))) (last : List (Text × Node))

/-- The keys of a table with what they stand for. No key is there twice. -/
abbrev Fields := List (Text × Node)

namespace Fields

/-- Lets a key stand for something else from now on. -/
def set (fs : Fields) (key : Text) (n : Node) : Fields :=
  match fs with
  | [] => [(key, n)]
  | f :: fs => if f.1 = key then (key, n) :: fs else f :: set fs key n

/-- Adds a key that is not there yet. -/
def add? (fs : Fields) (key : Text) (n : Node) : Option Fields :=
  match fs.lookup key with
  | none => some (fs.set key n)
  | some _ => none

/-- Changes the table that keys lead to, and makes tables that are not there yet. Keys with dots
lead through no table that has a header of its own. -/
def update? (dotted : Bool) (change : Origin → Fields → Option Fields) :
    List Text → Origin → Fields → Option Fields
  | [], origin, fs => change origin fs
  | key :: keys, _, fs =>
    match fs.lookup key with
    | none =>
      let origin := if dotted then .dotted else .implied
      (update? dotted change keys origin []).map fun t => fs.set key (.table origin t)
    | some (.table origin t) =>
      if origin = .inline ∨ (dotted ∧ origin = .header) then none
      else (update? dotted change keys origin t).map fun t => fs.set key (.table origin t)
    | some (.tables earlier last) =>
      (update? dotted change keys .header last).map fun t => fs.set key (.tables earlier t)
    | some _ => none

/-- Lets a path of keys stand for something. Keys with dots add to no table but one that such keys
have made. -/
def assign? (fs : Fields) (p : KeyPath) (n : Node) : Option Fields :=
  if p.parents.isEmpty then fs.add? p.key n
  else
    update? true (fun origin t => if origin = .dotted then t.add? p.key n else none)
      p.parents .header fs

/-- Lets paths of keys stand for something, in order. -/
def ofPairs? (pairs : List (KeyPath × Node)) : Option Fields :=
  pairs.foldlM (fun fs (p, n) => fs.assign? p n) []

/-- Opens the table of a header, which may be there if it was only implied so far. -/
def openTable? (fs : Fields) (p : KeyPath) : Option Fields :=
  update? false
    (fun _ t =>
      match t.lookup p.key with
      | none => some (t.set p.key (.table .header []))
      | some (.table .implied u) => some (t.set p.key (.table .header u))
      | some _ => none)
    p.parents .header fs

/-- Opens one more table under a header in doubled brackets. -/
def openElement? (fs : Fields) (p : KeyPath) : Option Fields :=
  update? false
    (fun _ t =>
      match t.lookup p.key with
      | none => some (t.set p.key (.tables [] []))
      | some (.tables earlier last) => some (t.set p.key (.tables (earlier ++ [last]) []))
      | some _ => none)
    p.parents .header fs

end Fields

end Typings.Toml
