import Typings.Files.Error
import Typings.Files.Path

/-! # Failures of jobs -/

namespace Typings.Job

/-- Why a job failed. -/
inductive Failure where
  /-- A source could not be read. -/
  | load (path : Path) (error : FileError)
  /-- The document could not be written. -/
  | write (path : Path) (error : FileError)
  /-- The request asks for pages without saying which. -/
  | noExtension
deriving DecidableEq, Repr

namespace Failure

def message : Failure → Text
  | .load path e => "failed to load ".toList ++ path ++ ": ".toList ++ e.message
  | .write path e => "failed to write ".toList ++ path ++ ": ".toList ++ e.message
  | .noExtension => "invalid input: page extension is required".toList

/-- Whether a source could not be read. -/
def isLoad : Failure → Bool
  | .load .. => true
  | _ => false

/-- The error of the file system beneath a failure. -/
def cause? : Failure → Option FileError
  | .load _ e => some e
  | .write _ e => some e
  | .noExtension => none

end Failure

end Typings.Job
