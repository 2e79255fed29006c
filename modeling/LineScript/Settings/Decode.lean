import LineScript.Settings.Basic
import LineScript.Toml.Table
import LineScript.Yaml.Mapping

/-!
Settings from documents. A document has a table for each part of the front end, and each setting
is an entry of its table. What a document does not set keeps its default, and what it sets beyond
the settings is ignored. In TOML the names of tables and entries may be in any case.
-/

set_option autoImplicit false
set_option relaxedAutoImplicit false

namespace LineScript

open Bytes

-- Powers are those of the core library, also beside other instances.
attribute [local instance (2000)] instPowNat

/-- The settings, one by one. -/
inductive Setting where
  | sourceTextLimit
  | strict
  | imageTextLimit
  | logLevel
  | logFormat
  deriving DecidableEq, Repr

/-- The tables of settings. -/
inductive SettingsTable where
  | parser
  | assembly
  | log
  deriving DecidableEq, Repr

/-- The table with a name. -/
def SettingsTable.ofName? (name : Bytes) : Option SettingsTable :=
  if name = utf8 "parser" then some .parser
  else if name = utf8 "assembly" then some .assembly
  else if name = utf8 "log" then some .log
  else none

/-- The setting with a name in a table. -/
def SettingsTable.setting? (table : SettingsTable) (name : Bytes) : Option Setting :=
  match table with
  | .parser =>
    if name = utf8 "max_text_length" then some .sourceTextLimit
    else if name = utf8 "strict" then some .strict
    else none
  | .assembly => if name = utf8 "max_text_length" then some .imageTextLimit else none
  | .log =>
    if name = utf8 "level" then some .logLevel
    else if name = utf8 "format" then some .logFormat
    else none

/-! ### TOML -/

namespace Toml

/-- A name in lower case, as far as letters in ASCII come out of it: the long s and the Kelvin
sign have plain small letters. -/
def foldedName (name : Bytes) : Bytes :=
  (Text.pieces name).flatMap fun
    | .character char =>
      if char.toNat = 0x17F then utf8 "s"
      else if char.toNat = 0x212A then utf8 "k"
      else String.utf8EncodeChar char.toLower
    | .stray byte => [byte]

/-- Gives a setting the value of an entry, which must have the type of the setting. -/
def set (settings : Settings) (setting : Setting) (value : Tree) : Option Settings :=
  match setting, value with
  | .sourceTextLimit, .integer limit => some { settings with sourceTextLimit := limit }
  | .strict, .boolean strict => some { settings with strict }
  | .imageTextLimit, .integer limit => some { settings with imageTextLimit := limit }
  | .logLevel, .text level => some { settings with logLevel := level }
  | .logFormat, .text format => some { settings with logFormat := format }
  | _, _ => none

/-- Takes the settings of one table. -/
def takeTable (settings : Settings) (table : SettingsTable) (entries : Entries) :
    Option Settings :=
  entries.foldlM (fun settings (name, value) ↦
    match table.setting? (foldedName name) with
    | some setting => set settings setting value
    | none => some settings) settings

/-- Takes the settings of a document. -/
def takeSettings (settings : Settings) (entries : Entries) : Option Settings :=
  entries.foldlM (fun settings (name, value) ↦
    match SettingsTable.ofName? (foldedName name), value with
    | some table, .table inner => takeTable settings table inner
    | some _, _ => none
    | none, _ => some settings) settings

end Toml

/-! ### YAML -/

namespace Yaml

/-- A number without what stands after its point, within 64 bits. Numbers too far below zero
count as the least integer. -/
def integerOf? (number : Number) : Option Int :=
  match number.truncated? with
  | some whole =>
    if 2 ^ (63 : Nat) < whole then none
    else if whole < -(2 ^ (63 : Nat)) ∨ whole = 2 ^ (63 : Nat) then some (-(2 ^ (63 : Nat)))
    else some whole
  | none =>
    if number = Number.ofMagnitude true Number.infinity then some (-(2 ^ (63 : Nat))) else none

/-- The boolean that a word without quotes or with them can stand for. -/
def answer? (word : Bytes) : Option Bool :=
  if isAny word ["y", "Y", "yes", "Yes", "YES", "on", "On", "ON"] then some true
  else if isAny word ["n", "N", "no", "No", "NO", "off", "Off", "OFF"] then some false
  else none

/-- An integer, or the default where there is nothing. -/
def integerAt (document : Document) (default : Int) (node : Node) : Option Int := do
  match ← document.scalar? node with
  | .null => some default
  | .integer value => if value < 2 ^ (63 : Nat) then some value else none
  | .real number => integerOf? number
  | _ => none

/-- A boolean, or the default where there is nothing. -/
def booleanAt (document : Document) (default : Bool) (node : Node) : Option Bool := do
  match ← document.scalar? node with
  | .null => some default
  | .boolean value => some value
  | .text word => answer? word
  | _ => none

/-- A text, or the default where there is nothing. Every scalar is a text as it is written. -/
def textAt (document : Document) (default : Bytes) (node : Node) : Option Bytes := do
  return (← document.text? node).getD default

/-- Gives a setting the value of a node. -/
def set (document : Document) (settings : Settings) (setting : Setting) (node : Node) :
    Option Settings := do
  match setting with
  | .sourceTextLimit =>
    let limit ← integerAt document settings.sourceTextLimit node
    return { settings with sourceTextLimit := limit }
  | .strict => return { settings with strict := ← booleanAt document settings.strict node }
  | .imageTextLimit =>
    let limit ← integerAt document settings.imageTextLimit node
    return { settings with imageTextLimit := limit }
  | .logLevel => return { settings with logLevel := ← textAt document settings.logLevel node }
  | .logFormat => return { settings with logFormat := ← textAt document settings.logFormat node }

/-- Takes the settings of one table. -/
def takeTable (document : Document) (settings : Settings) (table : SettingsTable) (node : Node) :
    Option Settings := do
  let fields ← document.fields? (table.setting? · |>.isSome) node
  fields.foldlM (fun settings (name, value) ↦
    match table.setting? name with
    | some setting => set document settings setting value
    | none => some settings) settings

/-- Takes the settings of a document. -/
def takeSettings (settings : Settings) (document : Document) : Option Settings :=
  match document.root with
  | none => some settings
  | some node => do
    let fields ← document.fields? (SettingsTable.ofName? · |>.isSome) node
    fields.foldlM (fun settings (name, value) ↦
      match SettingsTable.ofName? name with
      | some table => takeTable document settings table value
      | none => some settings) settings

end Yaml

/-! ### Both -/

/-- The language with a name. -/
def SettingsFormat.ofName? (name : Bytes) : Option SettingsFormat :=
  if name = utf8 "toml" then some .toml
  else if name = utf8 "yaml" then some .yaml
  else none

/-- The settings that a document in a language holds. -/
def SettingsFormat.settings? (format : SettingsFormat) (document : Bytes) : Option Settings :=
  match format with
  | .toml => (Toml.read? document).bind (Toml.takeSettings {})
  | .yaml => (Yaml.Document.read? document).bind (Yaml.takeSettings {})

/-- Reads settings from a document in a named language. -/
def readSettings (formatName document : Bytes) : Except SettingsError Settings :=
  match SettingsFormat.ofName? formatName with
  | none => .error (.unsupportedFormat formatName)
  | some format =>
    match format.settings? document with
    | none => .error (.malformed format)
    | some settings =>
      match settings.error? with
      | some error => .error error
      | none => .ok settings

end LineScript
