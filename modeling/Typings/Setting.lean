import Typings.Text.Basic

/-! # The names of settings -/

namespace Typings

/-- What can be set from outside. -/
inductive Setting where
  /-- Which log events are written. -/
  | log
  | jobFile
  | enumsInput
  | enumsOutput
  | banner
  | format
  | docsDir
  | docsExtension
  | docsExclude
  | docsStream
  | docsOutput
deriving DecidableEq, Repr

namespace Setting

def all : List Setting :=
  [.log, .jobFile, .enumsInput, .enumsOutput, .banner, .format, .docsDir, .docsExtension,
    .docsExclude, .docsStream, .docsOutput]

/-- The environment variable of a setting, which errors name it by. -/
def name : Setting → Text
  | .log => "DECLGEN_LOG".toList
  | .jobFile => "DECLGEN_CONFIG".toList
  | .enumsInput => "DECLGEN_ENUMS_INPUT".toList
  | .enumsOutput => "DECLGEN_ENUMS_OUTPUT".toList
  | .banner => "DECLGEN_BANNER".toList
  | .format => "DECLGEN_FORMAT".toList
  | .docsDir => "DECLGEN_DOCS_DIR".toList
  | .docsExtension => "DECLGEN_DOCS_EXTENSION".toList
  | .docsExclude => "DECLGEN_DOCS_EXCLUDE".toList
  | .docsStream => "DECLGEN_DOCS_STREAM".toList
  | .docsOutput => "DECLGEN_DOCS_OUTPUT".toList

end Setting

/-- An environment gives values to some settings. -/
abbrev Environment := Setting → Option Text

end Typings
