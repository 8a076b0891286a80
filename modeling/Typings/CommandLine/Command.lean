import Typings.CommandLine.Usage
import Typings.Output
import Typings.Setting

/-! # Commands and their arguments -/

namespace Typings

inductive Command where
  | enums
  | docs
  /-- Runs the jobs of a job file. -/
  | run
deriving DecidableEq, Repr

namespace Command

def name : Command → Text
  | .enums => "enums".toList
  | .docs => "docs".toList
  | .run => "run".toList

def all : List Command := [.enums, .docs, .run]

def ofName? (s : Text) : Option Command := all.find? (·.name == s)

/-- The setting that a command takes without a flag. -/
def positional? : Command → Option Setting
  | .enums => some .enumsInput
  | .docs => some .docsDir
  | .run => none

/-- The settings that a command takes with flags. -/
def options : Command → List Setting
  | .enums => [.enumsOutput, .banner, .format]
  | .docs => [.docsExtension, .docsExclude, .docsStream, .docsOutput, .format]
  | .run => [.jobFile]

/-- All settings of a command. -/
def settings (c : Command) : List Setting := c.positional?.toList ++ c.options

end Command

/-- The words for yes and no. -/
def Text.switch? (s : Text) : Option Bool :=
  let word := toLower s
  if ["y", "yes", "t", "true", "on", "1"].any (·.toList == word) then some true
  else if ["n", "no", "f", "false", "off", "0"].any (·.toList == word) then some false
  else none

namespace Setting

/-- The flag of a setting, without its dashes. -/
def flag? : Setting → Option Text
  | .log => some "log-filter".toList
  | .jobFile => some "config".toList
  | .enumsOutput | .docsOutput => some "output".toList
  | .banner => some "banner".toList
  | .format => some "format".toList
  | .docsExtension => some "extension".toList
  | .docsExclude => some "exclude".toList
  | .docsStream => some "stream".toList
  | .enumsInput | .docsDir => none

/-- The letter that is short for the flag. -/
def letter? : Setting → Option Char
  | .jobFile => some 'c'
  | .enumsOutput | .docsOutput => some 'o'
  | _ => none

/-- Whether the flag takes no value. -/
def isSwitch : Setting → Bool
  | .docsStream => true
  | _ => false

/-- What is wrong with a value. -/
def refusal? (s : Setting) (value : Text) : Option Usage :=
  match s with
  | .jobFile | .enumsInput | .enumsOutput | .docsDir | .docsOutput =>
    if value.isEmpty then some .invalidValue else none
  | .format => if (Format.ofName? value).isNone then some .invalidValue else none
  | .docsStream => if (Text.switch? value).isNone then some .invalidSwitch else none
  | .log | .banner | .docsExtension | .docsExclude => none

end Setting

/-- Where arguments stand: in front of the command or behind it. -/
inductive Scope where
  | program
  | command (c : Command)
deriving DecidableEq, Repr

/-- What a flag is for. -/
inductive Flag where
  | help
  | version
  | setting (s : Setting)
deriving DecidableEq, Repr

/-- Whether a value follows the flag. -/
def Flag.takesValue : Flag → Bool
  | .help | .version => false
  | .setting s => !s.isSwitch

namespace Scope

/-- The settings whose flags may stand here. The one for the log may stand anywhere. -/
def options : Scope → List Setting
  | .program => [.log]
  | .command c => c.options ++ [.log]

def positional? : Scope → Option Setting
  | .program => none
  | .command c => c.positional?

def flag? (scope : Scope) (name : Text) : Option Flag :=
  match scope.options.find? (·.flag? == some name) with
  | some s => some (.setting s)
  | none =>
    if name = "help".toList then some .help
    else if scope = .program ∧ name = "version".toList then some .version
    else none

def letter? (scope : Scope) (c : Char) : Option Flag :=
  match scope.options.find? (·.letter? == some c) with
  | some s => some (.setting s)
  | none =>
    if c = 'h' then some .help
    else if scope = .program ∧ c = 'V' then some .version
    else none

end Scope

end Typings
