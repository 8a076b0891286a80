import Typings.CommandLine.Command

/-! # Reading arguments -/

namespace Typings

/-- How an argument is written. -/
inductive Spelling where
  /-- Two dashes, behind which there are no flags. -/
  | separator
  | flag (name : Text) (value : Option Text)
  /-- Letters behind one dash. -/
  | letters (s : Text)
  | plain
deriving DecidableEq, Repr

namespace Spelling

def of : Text → Spelling
  | ['-', '-'] => .separator
  | '-' :: '-' :: s =>
    .flag (s.takeWhile (· != '=')) (s.dropWhile (· != '=')).tail?
  | '-' :: c :: s => .letters (c :: s)
  | _ => .plain

end Spelling

/-- How far arguments have been read. A value is settled only when the next argument has shown
that it is the only one. -/
structure Reading where
  given : List (Setting × Text) := []
  /-- A setting with its value, if that has come. -/
  pending : Option (Setting × Option Text) := none
  /-- The separator has been read. -/
  separated : Bool := false
deriving DecidableEq, Repr

namespace Reading

/-- Gives a value to a setting that has none. -/
def give (given : List (Setting × Text)) (s : Setting) (value : Text) :
    Except Usage (List (Setting × Text)) :=
  if (given.lookup s).isSome then .error .repeatedArgument
  else
    match s.refusal? value with
    | some u => .error u
    | none => .ok (given ++ [(s, value)])

/-- Settles the pending value. -/
def settle (r : Reading) : Except Usage Reading :=
  match r.pending with
  | none => .ok r
  | some (_, none) => .error .noValue
  | some (s, some value) => do
    let given ← give r.given s value
    return { r with given, pending := none }

/-- Settles the pending value and then another one. -/
def take (r : Reading) (s : Setting) (value : Text) : Except Usage Reading := do
  let r ← r.settle
  let given ← give r.given s value
  return { r with given }

/-- Settles the pending value and leaves another one pending. -/
def await (r : Reading) (s : Setting) (value : Option Text) : Except Usage Reading := do
  let r ← r.settle
  return { r with pending := some (s, value) }

/-- Whether the next argument is the value of an option, unless it is a flag. -/
def isAwaiting (r : Reading) : Bool :=
  match r.pending with
  | some (_, none) => !r.separated
  | _ => false

/-- Reads a flag, with its value if that is attached. -/
def flag (r : Reading) (f : Flag) (value : Option Text) : Except Usage Reading :=
  match f, value with
  | .help, none => do
    let _ ← r.settle
    .error .help
  | .version, none => do
    let _ ← r.settle
    .error .version
  | .help, some _ => .error .unexpectedValue
  | .version, some _ => .error .unexpectedValue
  | .setting s, some value => if s.isSwitch then .error .unexpectedValue else r.take s value
  | .setting s, none => if s.isSwitch then r.take s "true".toList else r.await s none

/-- Reads letters. What is behind the letter of an option is its value, perhaps after an equals
sign. -/
def letters (scope : Scope) (r : Reading) : Text → Except Usage Reading
  | [] => .ok r
  | c :: rest =>
    match scope.letter? c with
    | none => .error .unknownArgument
    | some f =>
      if f.takesValue ∧ rest ≠ [] then
        r.flag f (some (if rest.head? = some '=' then rest.tail else rest))
      else do
        letters scope (← r.flag f none) rest

/-- Reads an argument that is no flag. A program has commands instead of such arguments. -/
def plain (scope : Scope) (r : Reading) (a : Text) : Except Usage Reading :=
  match scope, scope.positional? with
  | _, some s =>
    if (r.given.lookup s).isSome ∨ r.pending.any (·.1 == s) then .error .unknownArgument
    else r.await s (some a)
  | .program, none =>
    if r.separated ∧ (a = "help".toList ∨ (Command.ofName? a).isSome) then .error .unknownArgument
    else .error .unknownCommand
  | .command _, none => .error .unknownArgument

/-- Looks up the command that help is asked for. Help itself may be asked for, too. -/
def help : List Text → Usage
  | [] => .help
  | [name] =>
    if name = "help".toList ∨ (Command.ofName? name).isSome then .help else .unknownCommand
  | _ :: _ => .unknownCommand

/-- The command that an argument names. A value that is awaited names none. -/
def command? (scope : Scope) (r : Reading) (a : Text) : Option Command :=
  if scope = .program ∧ ¬r.isAwaiting then Command.ofName? a else none

/-- Reads arguments up to a command, if one may come, and gives what follows it. -/
def read (scope : Scope) (r : Reading) :
    List Text → Except Usage (Reading × Option (Command × List Text))
  | [] => .ok (r, none)
  | a :: rest =>
    if r.separated then do
      read scope (← plain scope r a) rest
    else if scope = .program ∧ ¬r.isAwaiting ∧ a = "help".toList then .error (help rest)
    else
      match command? scope r a, Spelling.of a with
      | some c, _ => .ok (r, some (c, rest))
      | none, .separator => read scope { r with separated := true } rest
      | none, .flag name value =>
        match scope.flag? name with
        | some f => do
          read scope (← r.flag f value) rest
        | none => .error .unknownArgument
      | none, .letters s => do
        read scope (← letters scope r s) rest
      | none, .plain =>
        match r.pending with
        | some (s, none) => read scope { r with pending := some (s, some a) } rest
        | _ => do
          read scope (← plain scope r a) rest

end Reading

end Typings
