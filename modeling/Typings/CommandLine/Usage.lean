import Typings.Text.Basic

/-! # Command lines that ask for no work -/

namespace Typings

/-- Why a command line asks for no work. -/
inductive Usage where
  | help
  | version
  | unknownArgument
  | unknownCommand
  | missingCommand
  /-- Neither a command nor anything else was given. -/
  | nothingGiven
  | missingArgument
  | repeatedArgument
  /-- An option stands without its value. -/
  | noValue
  | invalidValue
  /-- A value is none of the words for yes and no. -/
  | invalidSwitch
  /-- A flag that takes no value has one. -/
  | unexpectedValue
deriving DecidableEq, Repr

namespace Usage

def message : Usage → Text
  | .help => "help was asked for".toList
  | .version => "the version was asked for".toList
  | .unknownArgument => "unexpected argument".toList
  | .unknownCommand => "unrecognized command".toList
  | .missingCommand => "a command is required".toList
  | .nothingGiven => "nothing to do".toList
  | .missingArgument => "a required argument is missing".toList
  | .repeatedArgument => "an argument is given more than once".toList
  | .noValue => "a value is required".toList
  | .invalidValue => "invalid value".toList
  | .invalidSwitch => "a value is neither true nor false".toList
  | .unexpectedValue => "unexpected value".toList

/-- Whether the command line asks for just what it gets. -/
def isQuestion : Usage → Bool
  | .help | .version => true
  | _ => false

end Usage

end Typings
