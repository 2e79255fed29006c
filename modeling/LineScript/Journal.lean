import LineScript.Settings.Basic
import LineScript.Source
import LineScript.Text.Blank

/-!
The journal of reading a source. Every kept line has a record at debug level, and an early stop
has one at warning level after them. A record is a list of attributes, written as a line of
`key=value` pairs or as a line of JSON. Records below the configured level are left out.
-/

set_option autoImplicit false
set_option relaxedAutoImplicit false

namespace LineScript

open Bytes

/-- The value of an attribute. -/
inductive Attribute where
  | number (value : Int)
  | text (value : Bytes)
  deriving DecidableEq, Repr

/-- The two levels that reading a source reports at. -/
inductive Severity where
  | debug
  | warning
  deriving DecidableEq, Repr

/-- The place of a level among all levels. -/
def Severity.rank : Severity → Int
  | .debug => -4
  | .warning => 4

def Severity.name : Severity → Bytes
  | .debug => utf8 "DEBUG"
  | .warning => utf8 "WARN"

/-- One record of a journal. -/
structure JournalRecord where
  severity : Severity
  message : Bytes
  attributes : List (Bytes × Attribute)
  deriving DecidableEq, Repr

/-- The record of a kept line. -/
def Line.record (file : Bytes) (line : Line) : JournalRecord :=
  ⟨.debug, utf8 "line parsed",
    [(utf8 "file", .text file), (utf8 "line", .number line.number),
     (utf8 "scope", .number line.scope), (utf8 "words", .number line.words.length)]⟩

/-- The record of an early stop. A line that is too deep is recorded with its scope. -/
def Stop.record (file : Bytes) (stop : Stop) : JournalRecord :=
  let scope := match stop.cause with
    | .tooDeep scope => [(utf8 "scope", Attribute.number scope)]
    | _ => []
  ⟨.warning, utf8 "parse stopped",
    [(utf8 "file", .text file), (utf8 "line", .number stop.number)] ++ scope ++
      [(utf8 "err", .text (stop.failure file).text)]⟩

/-- The records of reading a source, in order. -/
def Source.records (source : Source) (file : Bytes) : List JournalRecord :=
  source.lines.map (Line.record file) ++ source.stop.toList.map (Stop.record file)

/-- The attributes of a record in the order in which they are written. -/
def JournalRecord.fields (record : JournalRecord) : List (Bytes × Attribute) :=
  (utf8 "level", .text record.severity.name) :: (utf8 "msg", .text record.message) ::
    record.attributes

/-! ### Pairs -/

/-- A piece that must not stand in a value without quotes. -/
def Text.Piece.needsQuotes : Text.Piece → Bool
  | .stray _ => true
  | .character char =>
    let code := char.toNat
    if code < 0x80 then code ≤ 0x20 || code == 0x3D || code == 0x22
    else code == 0xFFFD || Text.isBlank char || !Text.isPrintable char

/-- A text as a value, in quotes where it could not be told from what follows it. -/
def plainOrQuoted (text : Bytes) : Bytes :=
  if text.isEmpty || (Text.pieces text).any Text.Piece.needsQuotes then Text.quote text else text

def Attribute.plain : Attribute → Bytes
  | .number value => integer value
  | .text value => plainOrQuoted value

/-- A record as `key=value` pairs, one space apart. -/
def JournalRecord.pairs (record : JournalRecord) : Bytes :=
  joined [0x20] (record.fields.map fun (key, content) ↦ key ++ 0x3D :: content.plain)

/-! ### JSON -/

/-- A piece inside a JSON string. -/
def Text.Piece.json : Text.Piece → Bytes
  | .stray _ => utf8 "\\ufffd"
  | .character char =>
    match char.toNat with
    | 0x22 => utf8 "\\\""
    | 0x5C => utf8 "\\\\"
    | 0x0A => utf8 "\\n"
    | 0x0D => utf8 "\\r"
    | 0x09 => utf8 "\\t"
    | code =>
      if code < 0x20 || code == 0x2028 || code == 0x2029 then utf8 "\\u" ++ hex 4 code
      else String.utf8EncodeChar char

/-- A JSON string. -/
def jsonString (text : Bytes) : Bytes :=
  0x22 :: (Text.pieces text).flatMap Text.Piece.json ++ [0x22]

def Attribute.json : Attribute → Bytes
  | .number value => integer value
  | .text value => jsonString value

/-- A record as a JSON object. -/
def JournalRecord.json (record : JournalRecord) : Bytes :=
  utf8 "\x7b" ++
    joined [0x2C] (record.fields.map fun (key, content) ↦
      jsonString key ++ 0x3A :: content.json) ++
    utf8 "\x7d"

/-! ### The journal -/

/-- The journal of reading a source under given settings. A level without a meaning counts as
information, and every format but JSON is that of pairs. -/
def Settings.journal (settings : Settings) (source : Source) (file : Bytes) : List Bytes :=
  let least := (logLevel? settings.logLevel).getD 0
  let write := if settings.logFormat = utf8 "json" then JournalRecord.json else JournalRecord.pairs
  ((source.records file).filter fun record ↦ decide (least ≤ record.severity.rank)).map write

end LineScript
