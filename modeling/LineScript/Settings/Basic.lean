import LineScript.Image.Basic
import LineScript.Line

/-!
Settings of the front end: the limits on texts, strict reading, and the log. A log level is a
name with an optional signed offset. The limit on texts in sources must not exceed the limit on
texts in images, since every text of a source ends up in an image.
-/

set_option autoImplicit false
set_option relaxedAutoImplicit false

namespace LineScript

open Bytes

-- Powers are those of the core library, also beside other instances.
attribute [local instance (2000)] instPowNat

/-- The settings of the front end. -/
structure Settings where
  /-- The longest text in a source; zero stands for the limit on texts in images. -/
  sourceTextLimit : Int := defaultTextLimit
  strict : Bool := false
  /-- The longest text in an image. -/
  imageTextLimit : Int := LineScript.imageTextLimit
  logLevel : Bytes := utf8 "info"
  logFormat : Bytes := utf8 "text"
  deriving DecidableEq, Repr

/-- The languages that settings are written in. -/
inductive SettingsFormat where
  | toml
  | yaml
  deriving DecidableEq, Repr

/-- Why settings are refused. -/
inductive SettingsError where
  | malformed (format : SettingsFormat)
  | unsupportedFormat (format : Bytes)
  | imageTextLimit (limit : Int)
  | sourceTextLimit (highest limit : Int)
  | logLevel (level : Bytes)
  | logFormat (format : Bytes)
  deriving DecidableEq, Repr

/-- The wording of refused settings. -/
def SettingsError.message : SettingsError → Bytes
  | .malformed .toml => utf8 "config: TOML parse error"
  | .malformed .yaml => utf8 "config: YAML parse error"
  | .unsupportedFormat format => utf8 "config: unsupported format " ++ Text.quote format
  | .imageTextLimit limit =>
    utf8 "config: assembly.max_text_length must be in 1.." ++
      decimal LineScript.imageTextLimit ++ utf8 ", got " ++ integer limit
  | .sourceTextLimit highest limit =>
    utf8 "config: parser.max_text_length must be in 0.." ++ integer highest ++ utf8 ", got " ++
      integer limit
  | .logLevel level => utf8 "config: unknown log level " ++ Text.quote level
  | .logFormat format => utf8 "config: unknown log format " ++ Text.quote format

/-- The report of refused settings. -/
def SettingsError.failure (error : SettingsError) : Failure :=
  .plain error.message

/-! ### Log levels -/

/-- A decimal integer with its sign, within 64 bits. -/
def offset? : Bytes → Option Int
  | sign :: digits =>
    if digits.isEmpty || !digits.all isDigit then none
    else
      let magnitude := value digits
      if sign = 0x2B ∧ magnitude < 2 ^ (63 : Nat) then some magnitude
      else if sign = 0x2D ∧ magnitude ≤ 2 ^ (63 : Nat) then some (-magnitude)
      else none
  | [] => none

/-- A character in upper case, as far as capitals in ASCII come out of it: the dotless i has a
plain capital. -/
def capital (char : Char) : Char :=
  if char = Char.ofNat 0x131 then 'I' else char.toUpper

/-- The level of a name in any case. -/
def levelOfName? (name : Bytes) : Option Int := do
  let text ← Text.toString? name
  match text.map capital with
  | "DEBUG" => some (-4)
  | "INFO" => some 0
  | "WARN" => some 4
  | "ERROR" => some 8
  | _ => none

/-- The level of a name with an optional offset after it; the sum is taken in 64 bits. -/
def logLevel? (text : Bytes) : Option Int := do
  let isSign (byte : UInt8) := byte == 0x2B || byte == 0x2D
  let base ← levelOfName? (text.takeWhile (!isSign ·))
  match text.dropWhile (!isSign ·) with
  | [] => some base
  | rest => do
    let offset ← offset? rest
    some (Int.bmod (base + offset) (2 ^ (64 : Nat)))

/-! ### What follows from settings -/

namespace Settings

/-- The first setting out of its range. -/
def error? (settings : Settings) : Option SettingsError :=
  if settings.imageTextLimit < 1 ∨ LineScript.imageTextLimit < settings.imageTextLimit then
    some (.imageTextLimit settings.imageTextLimit)
  else if settings.sourceTextLimit < 0 ∨
      settings.imageTextLimit < settings.sourceTextLimit then
    some (.sourceTextLimit settings.imageTextLimit settings.sourceTextLimit)
  else if (logLevel? settings.logLevel).isNone then some (.logLevel settings.logLevel)
  else if settings.logFormat ≠ utf8 "text" ∧ settings.logFormat ≠ utf8 "json" then
    some (.logFormat settings.logFormat)
  else none

/-- How sources are read under the settings. -/
def readingRules (settings : Settings) : ReadingRules :=
  { textLimit :=
      if settings.sourceTextLimit = 0 then settings.imageTextLimit else settings.sourceTextLimit
    strict := settings.strict }

end Settings

/-- The language of a settings file by the extension of its path. -/
def settingsFormat (path : Bytes) : SettingsFormat :=
  let file := (path.reverse.takeWhile (· != 0x2F)).reverse
  if file.contains 0x2E then
    let extension := lower (file.reverse.takeWhile (· != 0x2E)).reverse
    if extension = utf8 "yaml" ∨ extension = utf8 "yml" then .yaml else .toml
  else .toml

end LineScript
