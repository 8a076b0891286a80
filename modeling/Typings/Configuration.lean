import Typings.CommandLine
import Typings.Job.Host
import Typings.JobFile

/-! # From arguments and environment to jobs -/

namespace Typings

/-- What a run of the program is to do. -/
structure Configuration where
  logFilter : Text
  jobs : List Job
deriving DecidableEq, Repr

namespace Configuration

/-- Why there is no configuration. -/
inductive Error where
  | usage (u : Usage)
  | setting (e : SettingError)
  /-- The job file could not be read. -/
  | load (path : Path) (e : FileError)
  | jobFile (path : Path) (e : JobFile.Error)
deriving DecidableEq, Repr

namespace Error

def message : Error → Text
  | .usage u => u.message
  | .setting e => e.message
  | .load path e => "failed to read job file ".toList ++ path ++ ": ".toList ++ e.message
  | .jobFile path e => "failed to parse job file ".toList ++ path ++ ": ".toList ++ e.message

end Error

variable {m : Type → Type} [Monad m] [Host m]

/-- The jobs that a task comes down to. Those of a job file take their paths from its directory. -/
def jobsOf : Task → ExceptT Error m (List Job)
  | .enums settings =>
    match settings.request with
    | .ok request => return [.enums request]
    | .error e => throw (.setting e)
  | .docs settings =>
    match settings.request with
    | .ok request => return [.docs request]
    | .error e => throw (.setting e)
  | .run path => do
    match ← (Host.readText path : m _) with
    | .error e => throw (.load path e)
    | .ok contents =>
      match JobFile.parse ((Path.parent? path).getD []) contents with
      | .ok jobs => return jobs
      | .error e => throw (.jobFile path e)

def load (env : Environment) (arguments : List Text) : ExceptT Error m Configuration := do
  match CommandLine.parse env arguments with
  | .error u => throw (.usage u)
  | .ok line =>
    let jobs ← jobsOf line.task
    return { logFilter := line.logFilter, jobs }

end Configuration

end Typings
