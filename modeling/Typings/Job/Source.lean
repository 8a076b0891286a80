import Typings.Job.Failure
import Typings.Job.Host

/-! # Reading sources and writing documents -/

namespace Typings.Job

variable {m : Type → Type} [Monad m] [Host m]

/-- Reads a source. -/
def load (path : Path) : ExceptT Failure m Text := do
  match ← (Host.readText path : m _) with
  | .ok s => return s
  | .error e => throw (.load path e)

/-- Writes a document, after the directories above it that are missing. -/
def save (path : Path) (document : Text) : ExceptT Failure m Unit := do
  if let some directory := Path.parent? path then
    if let .error e ← (Host.makeDirectories directory : m _) then
      throw (.write path e)
  if let .error e ← (Host.writeText path document : m _) then
    throw (.write path e)

end Typings.Job
