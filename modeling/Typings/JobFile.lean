import Typings.Settings
import Typings.Toml.Document

/-! # Job files

A job file is a TOML document with the tables `enums` and `docs`, each of which sets a job. Its
paths are taken from the directory that the file is in. -/

namespace Typings

namespace Toml.Node

def text? : Node → Option Text
  | .text s => some s
  | _ => none

def boolean? : Node → Option Bool
  | .boolean b => some b
  | _ => none

/-- Whether something holds nothing. -/
def isVoid : Node → Bool
  | .array [] => true
  | .table _ [] => true
  | _ => false

/-- Reads the name of a format. It may also be the only key of a table, without a value. -/
def format? : Node → Option Format
  | .text s => Format.ofName? s
  | .table _ [(key, n)] => if n.isVoid then Format.ofName? key else none
  | _ => none

/-- Reads what may be absent. -/
def optional? {α : Type} (read : Node → Option α) : Option Node → Option (Option α)
  | none => some none
  | some n => (read n).map some

/-- Reads what has a default. -/
def default? {α : Type} (read : Node → Option α) (default : α) : Option Node → Option α
  | none => some default
  | some n => read n

end Toml.Node

open Toml (Node Fields)

/-- Whether a table has no keys but known ones. -/
def Toml.Fields.hasOnly (fs : Fields) (keys : List String) : Bool :=
  fs.all fun (key, _) => keys.any fun k => k.toList == key

namespace EnumsSettings

def ofValues? (input : Node) (output banner format : Option Node) : Option EnumsSettings := do
  let input ← input.text?
  let output ← Node.optional? Node.text? output
  let banner ← Node.optional? Node.text? banner
  let format ← Node.default? Node.format? .declarations format
  return { input, output, banner, format }

/-- Reads settings from a table, or from an array of their values in order. Only the last of them
may be left out of an array. -/
def ofNode? : Node → Option EnumsSettings
  | .table _ fs => do
    guard (Toml.Fields.hasOnly fs ["input", "output", "banner", "format"])
    let input ← fs.lookup "input".toList
    ofValues? input (fs.lookup "output".toList) (fs.lookup "banner".toList)
      (fs.lookup "format".toList)
  | .array (input :: output :: banner :: rest) => ofValues? input output banner rest.head?
  | _ => none

end EnumsSettings

namespace DocsSettings

def ofValues? (dir : Node) (extension exclude output stream format : Option Node) :
    Option DocsSettings := do
  let dir ← dir.text?
  let extension ← Node.optional? Node.text? extension
  let exclude ← Node.optional? Node.text? exclude
  let output ← Node.optional? Node.text? output
  let stream ← Node.default? Node.boolean? false stream
  let format ← Node.default? Node.format? .declarations format
  return { dir, extension, exclude, output, stream, format }

/-- Reads settings from a table, or from an array of their values in order. Only the last two of
them may be left out of an array. -/
def ofNode? : Node → Option DocsSettings
  | .table _ fs => do
    guard (Toml.Fields.hasOnly fs ["dir", "extension", "exclude", "output", "stream", "format"])
    let dir ← fs.lookup "dir".toList
    ofValues? dir (fs.lookup "extension".toList) (fs.lookup "exclude".toList)
      (fs.lookup "output".toList) (fs.lookup "stream".toList) (fs.lookup "format".toList)
  | .array (dir :: extension :: exclude :: output :: rest) =>
    ofValues? dir extension exclude output rest.head? rest.tail.head?
  | _ => none

end DocsSettings

/-- What a job file sets. -/
structure JobFile where
  enums : Option EnumsSettings := none
  docs : Option DocsSettings := none
deriving DecidableEq, Repr

namespace JobFile

/-- What is wrong with a job file. -/
inductive Error where
  /-- It is not TOML, or does not have the form of a job file. -/
  | malformed
  | setting (error : SettingError)
  | noJobs
deriving DecidableEq, Repr

namespace Error

def message : Error → Text
  | .malformed => "not a job file".toList
  | .setting e => e.message
  | .noJobs => "no [enums] or [docs] job configured".toList

end Error

def ofFields? (fs : Fields) : Option JobFile := do
  guard (Toml.Fields.hasOnly fs ["enums", "docs"])
  let enums ← Node.optional? EnumsSettings.ofNode? (fs.lookup "enums".toList)
  let docs ← Node.optional? DocsSettings.ofNode? (fs.lookup "docs".toList)
  return { enums, docs }

def read? (s : Text) : Option JobFile := (Toml.Document.read? s).bind ofFields?

/-- The jobs of a file, the enums job first. -/
def jobs (base : Path) (f : JobFile) : Except SettingError (List Job) := do
  let enums ← match f.enums with
    | some s => do
      let r ← (s.below base).request
      pure [Job.enums r]
    | none => pure []
  let docs ← match f.docs with
    | some s => do
      let r ← (s.below base).request
      pure [Job.docs r]
    | none => pure []
  return enums ++ docs

/-- Reads the jobs of a file, of which there is at least one. -/
def parse (base : Path) (s : Text) : Except Error (List Job) :=
  match read? s with
  | none => .error .malformed
  | some f =>
    match f.jobs base with
    | .error e => .error (.setting e)
    | .ok [] => .error .noJobs
    | .ok jobs => .ok jobs

end JobFile

end Typings
