import Typings.Files.Tree
import Typings.Log

/-! # Hosts

A job sees the world through a host: files, a log and a place to print to. -/

namespace Typings

/-- A host carries out what a job asks for. -/
class Host (m : Type → Type) where
  readText : Path → m (Except FileError Text)
  /-- The names in a directory, each with whether it is a regular file. -/
  list : Path → m (Except FileError (List (Text × Bool)))
  makeDirectories : Path → m (Except FileError Unit)
  writeText : Path → Text → m (Except FileError Unit)
  log : Log.Event → m Unit
  /-- Says which log events are to be shown from now on. -/
  filterLog : Text → m Unit
  print : Text → m Unit

namespace Host

variable {m : Type → Type} [Monad m] [Host m]

/-- Logs events in order. -/
def logAll : List Log.Event → m Unit
  | [] => pure ()
  | e :: es => do
    Host.log e
    logAll es

end Host

/-- A session is a file tree with what has been logged and printed. -/
structure Session where
  files : FileTree
  log : List Log.Event := []
  printed : Text := []
deriving DecidableEq

namespace Session

/-- A session as a host: everything asked for is done to the session itself. -/
instance : Host (StateM Session) where
  readText p := fun s => (s.files.readText p, s)
  list p := fun s => (s.files.list p, s)
  makeDirectories p := fun s =>
    let (r, files) := s.files.makeDirectories p
    (r, { s with files })
  writeText p t := fun s =>
    match s.files.writeText p t with
    | .ok files => (.ok (), { s with files })
    | .error e => (.error e, s)
  log e := fun s => ((), { s with log := s.log ++ [e] })
  filterLog _ := pure ()
  print t := fun s => ((), { s with printed := s.printed ++ t })

end Session

end Typings
