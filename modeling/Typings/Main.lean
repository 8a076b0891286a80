import Typings.Log.Filter
import Typings.Program

/-! # The command line program -/

namespace Typings

/-- The system as a host. It shows log events from a level on. -/
abbrev Terminal := StateT (Option Log.Level) IO

namespace Terminal

def fileError : IO.Error → FileError
  | .noFileOrDirectory .. => .notFound
  | .alreadyExists .. => .alreadyExists
  | .inappropriateType _ 21 _ => .isDirectory
  | .inappropriateType .. => .notDirectory
  | .invalidArgument _ 36 _ => .nameTooLong
  | .invalidArgument _ 40 _ => .tooManyLinks
  | e => .other (toString e).toList

def attempt {α : Type} (act : IO α) : Terminal (Except FileError α) := do
  try
    return .ok (← act)
  catch e =>
    return .error (fileError e)

def readText (p : Path) : Terminal (Except FileError Text) := do
  match ← attempt (IO.FS.readBinFile (String.ofList p)) with
  | .ok bytes =>
    match String.fromUTF8? bytes with
    | some s => return .ok s.toList
    | none => return .error .notText
  | .error e => return .error e

def list (p : Path) : Terminal (Except FileError (List (Text × Bool))) :=
  attempt do
    let directory := (← IO.currentDir) / String.ofList p
    let entries ← directory.readDir
    entries.toList.mapM fun e => do
      let metadata ← e.path.symlinkMetadata
      return (e.fileName.toList, metadata.type == .file)

/-- The text of a log event. -/
def line (e : Log.Event) : String :=
  let level := match e.level with
    | .debug => "DEBUG"
    | .info => "INFO"
    | .warn => "WARN"
    | .error => "ERROR"
  let field : String × Log.Value → String
    | (name, .count n) => " " ++ name ++ "=" ++ toString n
    | (name, .text s) => " " ++ name ++ "=" ++ String.ofList s
  level ++ " " ++ String.ofList e.message ++ String.join (e.fields.map field)

instance : Host Terminal where
  readText := readText
  list := list
  makeDirectories p :=
    if p.isEmpty then return .ok () else attempt (IO.FS.createDirAll (String.ofList p))
  writeText p s := attempt (IO.FS.writeFile (String.ofList p) (String.ofList s))
  log e := do
    if Log.Filter.shows (← get) e then IO.eprintln (line e)
  filterLog filter := set (Log.Filter.threshold filter)
  print s := do
    let out ← IO.getStdout
    out.putStr (String.ofList s)
    out.flush

/-- The settings in the environment of the process. -/
def environment : IO Environment := do
  let values ← Setting.all.mapM fun s => do
    return (s, (← IO.getEnv (String.ofList s.name)).map String.toList)
  return fun s => (values.lookup s).join

end Terminal

end Typings

def main (arguments : List String) : IO UInt32 := do
  let env ← Typings.Terminal.environment
  let run : Typings.Terminal Typings.Program.Outcome :=
    Typings.Program.run env (arguments.map String.toList)
  let (outcome, _) ← StateT.run run none
  if let some complaint := outcome.complaint? then
    IO.eprintln (String.ofList complaint)
  return outcome.exitCode.toUInt32
