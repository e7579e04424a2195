import TargetCode.Settings
import TargetCode.Toml.Document

/-!
Settings from a TOML document with a section for each dialect. Everything has
a default, and keys without a meaning are ignored.

This module and the reader of documents below it are an outer layer: nothing
else in the library depends on them, and no theorem is about them. What is
proved about settings starts from `Settings.validate`, wherever the two
sections come from.
-/

namespace TargetCode

namespace Section

/-- The key under which a section holds the path of its helpers. -/
def helpersKey : Dialect → String
  | .javascript => "runtime_namespace"
  | .python => "runtime_module"

/-- A setting that is given has to be a string. -/
def setting (item : Option Toml.Item) (default : String) : Except SettingsError String :=
  match item with
  | none => return default
  | some (.string s) => return s
  | some _ => throw .malformed

/-- A section is a table of settings or an array with the settings in
order. A date has no settings in it, and leaves all defaults in place. -/
def read (d : Dialect) (item : Option Toml.Item) : Except SettingsError Section := do
  let fromTable (entries : Toml.Entries) : Except SettingsError Section := do
    let helpers ← setting (entries.lookup (helpersKey d)) (default d).helpers
    let indent ← setting (entries.lookup "indent") (default d).indent
    return ⟨helpers, indent⟩
  match item with
  | none => return default d
  | some (.table _ entries) => fromTable entries
  | some (.inline entries) => fromTable entries
  | some (.array elements) =>
    let helpers ← setting elements[0]? (default d).helpers
    let indent ← setting elements[1]? (default d).indent
    return ⟨helpers, indent⟩
  | some .datetime => return default d
  | some _ => throw .malformed

end Section

namespace Settings

def ofText (text : String) : Except SettingsError Settings := do
  match Toml.read? text with
  | none => throw .malformed
  | some entries =>
    let javascript ← Section.read .javascript (entries.lookup "javascript")
    let python ← Section.read .python (entries.lookup "python")
    validate ⟨javascript, python⟩

/-- The settings in a file, given its bytes if it exists. -/
def ofFile (contents : Option ByteArray) : Except SettingsError Settings :=
  match contents with
  | none => throw .fileMissing
  | some bytes =>
    match String.fromUTF8? bytes with
    | none => throw .notUtf8
    | some text => ofText text

end Settings

end TargetCode
