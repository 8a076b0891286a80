import Typings.Job.Request
import Typings.Setting

/-! # From settings to requests

A request made here is one that can be carried out: it names its source, it can match pages, and
its document is not lost. -/

namespace Typings

/-- What is wrong with settings. -/
inductive SettingError where
  | missing (setting : Setting)
  | invalid (setting : Setting) (value : Text)
deriving DecidableEq, Repr

namespace SettingError

def message : SettingError → Text
  | .missing s => "missing required setting: ".toList ++ s.name
  | .invalid s value => "invalid ".toList ++ s.name ++ " value: ".toList ++ value

end SettingError

/-- A text that is there and not blank. -/
def Text.filled (s : Option Text) : Option Text := s.filter (!Text.isBlankText ·)

/-- The settings of an enums job. -/
structure EnumsSettings where
  input : Path
  output : Option Path := none
  banner : Option Text := none
  format : Format := .declarations
deriving DecidableEq, Repr

namespace EnumsSettings

/-- The settings with their paths taken from a base directory. -/
def below (base : Path) (s : EnumsSettings) : EnumsSettings :=
  { s with input := Path.join base s.input, output := s.output.map (Path.join base) }

/-- The request that settings describe. A blank banner is none. -/
def request (s : EnumsSettings) : Except SettingError EnumsRequest :=
  if s.input.isEmpty then .error (.missing .enumsInput)
  else
    .ok { input := s.input, output := s.output, banner := Text.filled s.banner, format := s.format }

end EnumsSettings

/-- The settings of a docs job. -/
structure DocsSettings where
  dir : Path
  extension : Option Text := none
  exclude : Option Text := none
  output : Option Path := none
  stream : Bool := false
  format : Format := .declarations
deriving DecidableEq, Repr

namespace DocsSettings

/-- The settings with their paths taken from a base directory. -/
def below (base : Path) (s : DocsSettings) : DocsSettings :=
  { s with dir := Path.join base s.dir, output := s.output.map (Path.join base) }

/-- An extension that is blank behind its leading dots matches no page. -/
def isUselessExtension (extension : Text) : Bool :=
  Text.isBlankText (extension.dropWhile (· == '.'))

/-- Blocks are streamed as declarations, so JSON needs a file to go to. -/
def losesDocument (s : DocsSettings) : Bool :=
  s.stream && s.output.isNone && s.format == .json

/-- The request that settings describe. A blank name excludes no page. -/
def request (s : DocsSettings) : Except SettingError DocsRequest :=
  let extension := s.extension.getD DocsRequest.defaultExtension
  if s.dir.isEmpty then .error (.missing .docsDir)
  else if isUselessExtension extension then .error (.invalid .docsExtension extension)
  else if s.losesDocument then
    .error (.invalid .format "json (streaming without an output file)".toList)
  else
    .ok {
      dir := s.dir
      extension := extension
      exclude := Text.filled (some (s.exclude.getD DocsRequest.enumListing))
      mode := if s.stream then .stream else .concatenate
      format := s.format
      output := s.output }

end DocsSettings

end Typings
