import Typings.CommandLine.Reading
import Typings.Settings

/-! # Command lines

An argument beats the environment variable of its setting, which beats the default. -/

namespace Typings

/-- What a command asks for. -/
inductive Task where
  | enums (settings : EnumsSettings)
  | docs (settings : DocsSettings)
  | run (jobFile : Path)
deriving DecidableEq, Repr

namespace Command

/-- Takes settings that were not given from the environment, in order. -/
def fill (env : Environment) (given : List (Setting × Text)) :
    List Setting → Except Usage (List (Setting × Text))
  | [] => .ok given
  | s :: rest =>
    match given.lookup s, env s with
    | none, some value => do
      fill env (← Reading.give given s value) rest
    | _, _ => fill env given rest

def defaultJobFile : Path := "declgen.toml".toList

/-- The format that values ask for. -/
def formatOf (values : List (Setting × Text)) : Format :=
  ((values.lookup .format).bind Format.ofName?).getD .declarations

/-- The task that values set. -/
def task (values : List (Setting × Text)) : Command → Except Usage Task
  | .enums =>
    match values.lookup .enumsInput with
    | none => .error .missingArgument
    | some input =>
      .ok (.enums {
        input := input
        output := values.lookup .enumsOutput
        banner := values.lookup .banner
        format := formatOf values })
  | .docs =>
    match values.lookup .docsDir with
    | none => .error .missingArgument
    | some dir =>
      .ok (.docs {
        dir := dir
        extension := values.lookup .docsExtension
        exclude := values.lookup .docsExclude
        output := values.lookup .docsOutput
        stream := ((values.lookup .docsStream).bind Text.switch?).getD false
        format := formatOf values })
  | .run => .ok (.run ((values.lookup .jobFile).getD defaultJobFile))

end Command

structure CommandLine where
  logFilter : Text
  task : Task
deriving DecidableEq, Repr

namespace CommandLine

def defaultLogFilter : Text := "declgen=info,declgen_core=info".toList

/-- The filter of the log: from behind the command, from in front of it, or from the environment. A
blank one is none. -/
def chooseLogFilter (env : Environment) (behind inFront : List (Setting × Text)) : Text :=
  (Text.filled (behind.lookup .log <|> inFront.lookup .log <|> env .log)).getD defaultLogFilter

/-- Reads the arguments of a program. Those of the command are settled first. -/
def parse (env : Environment) (arguments : List Text) : Except Usage CommandLine := do
  match ← Reading.read .program {} arguments with
  | (r, none) =>
    let r ← r.settle
    if r.given.isEmpty ∧ (env .log).isNone then .error .nothingGiven
    else .error .missingCommand
  | (r, some (command, rest)) =>
    let (inner, _) ← Reading.read (.command command) {} rest
    let inner ← inner.settle
    let values ← Command.fill env inner.given command.settings
    let task ← command.task values
    let r ← r.settle
    return { logFilter := chooseLogFilter env inner.given r.given, task }

end CommandLine

end Typings
