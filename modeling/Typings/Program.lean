import Typings.Configuration
import Typings.Job.Run

/-! # The program -/

namespace Typings.Program

/-- How a run of the program ends. -/
inductive Outcome where
  | done
  | refused (e : Configuration.Error)
  | failed (f : Job.Failure)
deriving DecidableEq, Repr

namespace Outcome

/-- The status that the program ends with: 0 if it did what was asked, 2 if the arguments were not
understood, 1 for any other failure. -/
def exitCode : Outcome → Nat
  | .done => 0
  | .refused (.usage u) => if u.isQuestion then 0 else 2
  | .refused _ => 1
  | .failed _ => 1

/-- What is said about a failure. -/
def complaint? : Outcome → Option Text
  | .done => none
  | .refused (.usage u) => if u.isQuestion then none else some u.message
  | .refused e => some e.message
  | .failed f => some f.message

end Outcome

def version : Text := "declgen 0.1.0\n".toList

def help : Text :=
  ("Generates type declarations from enum listings and documentation pages.\n\n" ++
    "Usage: declgen [--log-filter FILTER] COMMAND\n\n" ++
    "Commands:\n" ++
    "  enums INPUT [-o OUTPUT] [--banner BANNER] [--format FORMAT]\n" ++
    "  docs DIR [--extension EXTENSION] [--exclude PAGE] [--stream] [-o OUTPUT] [--format FORMAT]\n" ++
    "  run [-c FILE]\n").toList

variable {m : Type → Type} [Monad m] [Host m]

/-- Carries out the jobs that arguments and environment ask for. -/
def run (env : Environment) (arguments : List Text) : m Outcome := do
  match ← (Configuration.load env arguments).run with
  | .error e =>
    if e = .usage .version then Host.print version
    if e = .usage .help then Host.print help
    return .refused e
  | .ok configuration =>
    Host.filterLog configuration.logFilter
    match ← Job.runAll configuration.jobs with
    | (_, none) => return .done
    | (_, some f) => return .failed f

end Typings.Program
