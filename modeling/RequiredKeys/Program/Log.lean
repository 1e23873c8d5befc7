import RequiredKeys.Json.Writer
import RequiredKeys.Program.LogFilter
import RequiredKeys.Requirement.Clause
import RequiredKeys.Requirement.Run
import RequiredKeys.Text.Debug

/-!
# Logging

A command reports what it does by events.  An event becomes a record of a level,
a message and named fields, and a format writes a record as lines.

In text a field that is a text of the program's own is quoted, one that is
already a rendering for readers stands bare.
-/

namespace RequiredKeys

/-- Something that a command reports. -/
inductive Event
  | validating (schema : Path)
  | compiled (names : Nat)
  | rejected (error : ClauseError)
  | run (event : RunEvent)
  | checked (valid : Bool) (tokens : Nat)
  deriving DecidableEq, Repr, Inhabited

/-- The value of a field of a record. -/
inductive FieldValue
  | quoted (text : String)
  | bare (text : String)
  | number (value : Nat)
  | bool (value : Bool)
  deriving DecidableEq, Repr, Inhabited

structure LogRecord where
  level : LogLevel
  message : String
  fields : List (String × FieldValue)
  deriving DecidableEq, Repr, Inhabited

namespace Event

/-- What reading a clause reports; an absent one is passed over. -/
def ofClause? : Clause → Option Event
  | .absent => none
  | .names list => some (compiled list.length)
  | .malformed error => some (rejected error)

def record : Event → LogRecord
  | validating schema => ⟨.info, "validating document", [("schema", .bare schema.display)]⟩
  | compiled names => ⟨.debug, "compiled required constraint", [("names", .number names)]⟩
  | rejected error =>
    ⟨.debug, "rejected required constraint",
      [("code", .quoted error.code), ("error", .bare error.message)]⟩
  | run (.token kind depth) =>
    ⟨.trace, "token", [("kind", .bare kind.name), ("depth", .number depth)]⟩
  | run (.found name remaining) =>
    ⟨.debug, "required property found",
      [("name", .quoted name), ("remaining", .number remaining)]⟩
  | run (.finished tokens reachedEnd missing) =>
    ⟨.debug, "stream validation finished",
      [("tokens", .number tokens), ("reached_end", .bool reachedEnd),
        ("missing", .number missing)]⟩
  | checked valid tokens =>
    ⟨.info, "document checked", [("valid", .bool valid), ("tokens", .number tokens)]⟩

end Event

namespace FieldValue

def text : FieldValue → String
  | quoted text => Debug.quoted text
  | bare text => text
  | number value => toString value
  | bool value => toString value

def json : FieldValue → Json
  | quoted text => .string text
  | bare text => .string text
  | number value => .ofNat value
  | bool value => .bool value

end FieldValue

namespace LogRecord

/-- The name of the level as lines show it. -/
def levelText (record : LogRecord) : String :=
  record.level.name.map Char.toUpper

/-- The record as text. -/
def text (record : LogRecord) : String :=
  let fields := record.fields.map (fun (name, value) => name ++ "=" ++ value.text)
  " ".intercalate (record.levelText :: record.message :: fields)

/-- The record as a JSON object. -/
def json (record : LogRecord) : Json :=
  let fields := record.fields.map (fun (name, value) => (name, value.json))
  .object [("level", .string record.levelText),
    ("fields", .object (("message", .string record.message) :: fields))]

/-- The lines that show the record in the given format.  A bare field may hold line
feeds, so only the JSON format promises a single line. -/
def lines (format : LogFormat) (record : LogRecord) : List String :=
  match format with
  | .text => (record.text.toList.splitOn '\n').map String.ofList
  | .json => [record.json.compact]

end LogRecord

end RequiredKeys
