import TargetCode.Dialect
import TargetCode.Text.Shown

/-!
Settings of the written code: where its helper functions are found and how
it is indented, for each dialect.
-/

namespace TargetCode

structure Section where
  /-- The dotted path under which helper functions are found. -/
  helpers : String
  indent : String
  deriving DecidableEq, Repr

structure Settings where
  javascript : Section
  python : Section
  deriving DecidableEq, Repr

inductive SettingsError where
  | fileMissing
  | notUtf8
  /-- The text is no document, or a setting is not a string. -/
  | malformed
  | badHelpers (dialect : Dialect) (path : String)
  | badIndent (dialect : Dialect) (indent : String)
  deriving DecidableEq, Repr

namespace Section

def default : Dialect → Section
  | .javascript => ⟨"quire.rt", Dialect.javascript.defaultIndent⟩
  | .python => ⟨"quire_rt", Dialect.python.defaultIndent⟩

end Section

namespace Settings

def default : Settings where
  javascript := .default .javascript
  python := .default .python

def sectionFor (settings : Settings) : Dialect → Section
  | .javascript => settings.javascript
  | .python => settings.python

def startsIdentifier (c : Char) : Bool :=
  c.isAlpha || c = '_' || c = '$'

def continuesIdentifier (c : Char) : Bool :=
  c.isAlphanum || c = '_' || c = '$'

def isIdentifier : List Char → Bool
  | [] => false
  | c :: rest => startsIdentifier c && rest.all continuesIdentifier

def splitDots : List Char → List (List Char)
  | [] => [[]]
  | '.' :: rest => [] :: splitDots rest
  | c :: rest =>
    match splitDots rest with
    | [] => [[c]]
    | part :: parts => (c :: part) :: parts

/-- Whether a text is a sequence of identifiers joined by single dots. -/
def isPath (s : String) : Bool :=
  (splitDots s.toList).all isIdentifier

def isIndent (s : String) : Bool :=
  s.toList.all fun c => c = ' ' || c = '\t'

/-- The first fault of the settings: paths come before indents, and
JavaScript before Python. -/
def fault? (settings : Settings) : Option SettingsError :=
  if !isPath settings.javascript.helpers then
    some (.badHelpers .javascript settings.javascript.helpers)
  else if !isPath settings.python.helpers then
    some (.badHelpers .python settings.python.helpers)
  else if !isIndent settings.javascript.indent then
    some (.badIndent .javascript settings.javascript.indent)
  else if !isIndent settings.python.indent then
    some (.badIndent .python settings.python.indent)
  else none

def validate (settings : Settings) : Except SettingsError Settings :=
  match settings.fault? with
  | some e => .error e
  | none => .ok settings

end Settings

def SettingsError.message : SettingsError → String
  | .fileMissing => "Failed to read config file: No such file or directory (os error 2)"
  | .notUtf8 => "Failed to read config file: stream did not contain valid UTF-8"
  | .malformed => "Failed to parse config"
  | .badHelpers .javascript path =>
    "Invalid config: Invalid JavaScript runtime namespace: '" ++ path ++
      "'. Must be a dotted identifier (e.g., quire.rt)"
  | .badHelpers .python path =>
    "Invalid config: Invalid Python runtime module: '" ++ path ++
      "'. Must be a dotted identifier (e.g., quire_rt)"
  | .badIndent .javascript indent =>
    "Invalid config: Invalid javascript indent: " ++ Text.shown indent ++
      ". Must contain only spaces or tabs"
  | .badIndent .python indent =>
    "Invalid config: Invalid python indent: " ++ Text.shown indent ++
      ". Must contain only spaces or tabs"

end TargetCode
