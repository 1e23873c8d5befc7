import RequiredKeys.Files.Disk
import RequiredKeys.Json.Reader
import RequiredKeys.Requirement.Run

/-!
# Settings

A settings file chooses how documents are matched and what is logged.  Every
field may be left out.  A key that is no field is refused, so that a misspelt
one cannot go unnoticed, and so is a field that is given twice.

The fields may also be given as an array, in the order of `fieldNames`; the ones
left out at its end keep their defaults.  A choice between words may be written
as an object whose only member has the word for its key and `null` for its
value.
-/

namespace RequiredKeys

/-- How much a log line matters; later levels matter more. -/
inductive LogLevel
  | trace
  | debug
  | info
  | warn
  | error
  deriving DecidableEq, Repr, Inhabited

inductive LogFormat
  | text
  | json
  deriving DecidableEq, Repr, Inhabited

structure Settings where
  scope : MatchScope := .anywhere
  stopWhenSatisfied : Bool := true
  level : LogLevel := .info
  format : LogFormat := .text
  deriving DecidableEq, Repr, Inhabited

inductive SettingsError
  | unreadable (cause : SystemError)
  | notUtf8
  /-- The text is no JSON, or not of the form of settings. -/
  | malformed
  | unknownLevel (name : String)
  deriving DecidableEq, Repr, Inhabited

namespace LogLevel

def all : List LogLevel := [trace, debug, info, warn, error]

def name : LogLevel → String
  | trace => "trace"
  | debug => "debug"
  | info => "info"
  | warn => "warn"
  | error => "error"

def ofName? (name : String) : Option LogLevel :=
  all.find? (·.name == name)

theorem ofName?_name (level : LogLevel) : ofName? level.name = some level := by
  cases level <;> rfl

end LogLevel

namespace LogFormat

def name : LogFormat → String
  | text => "text"
  | json => "json"

/-- The formats by their words. -/
def words : List (String × LogFormat) :=
  [(text.name, text), (json.name, json)]

end LogFormat

namespace MatchScope

def name : MatchScope → String
  | anywhere => "anywhere"
  | topLevel => "top_level"

/-- The scopes by their words. -/
def words : List (String × MatchScope) :=
  [(anywhere.name, anywhere), (topLevel.name, topLevel)]

end MatchScope

namespace SettingsError

def code : String := "CONFIG_ERROR"

def message : SettingsError → String
  | unreadable cause => "Failed to read config: " ++ cause.message
  | notUtf8 => "Failed to read config: stream did not contain valid UTF-8"
  | malformed => "Invalid config JSON"
  | unknownLevel name =>
    "Invalid log_level: '" ++ name ++ "'. Expected one of: " ++
      ", ".intercalate (LogLevel.all.map LogLevel.name) ++ "."

end SettingsError

/-- Settings as a file declares them: the log level is still a text. -/
structure DeclaredSettings where
  scope : MatchScope := .anywhere
  stopWhenSatisfied : Bool := true
  levelName : String := LogLevel.info.name
  format : LogFormat := .text
  deriving DecidableEq, Repr, Inhabited

namespace DeclaredSettings

/-- The names of the fields, in the order in which an array gives them. -/
def fieldNames : List String :=
  ["match_scope", "stop_when_satisfied", "log_level", "log_format"]

/-- The choice that a value makes between words. -/
def choice? {α : Type} (words : List (String × α)) : Json → Option α
  | .string word => words.lookup word
  | .object [(word, .null)] => words.lookup word
  | _ => none

def bool? : Json → Option Bool
  | .bool value => some value
  | _ => none

/-- Takes the value of one field over. -/
def assign (settings : DeclaredSettings) (field : String × Json) : Option DeclaredSettings :=
  match field.1 with
  | "match_scope" =>
    (choice? MatchScope.words field.2).map (fun scope => { settings with scope := scope })
  | "stop_when_satisfied" =>
    (bool? field.2).map (fun stop => { settings with stopWhenSatisfied := stop })
  | "log_level" => field.2.string?.map (fun name => { settings with levelName := name })
  | "log_format" =>
    (choice? LogFormat.words field.2).map (fun format => { settings with format := format })
  | _ => none

/-- The settings with the given fields, each given once. -/
def ofFields? (fields : List (String × Json)) : Option DeclaredSettings :=
  if (fields.map Prod.fst).Nodup then fields.foldlM assign {} else none

/-- The settings that a value declares. -/
def ofJson? : Json → Option DeclaredSettings
  | .object members => ofFields? members
  | .array elements =>
    if elements.length ≤ fieldNames.length then ofFields? (fieldNames.zip elements) else none
  | _ => none

/-- Settings are usable when their log level exists. -/
def resolve (declared : DeclaredSettings) : Except SettingsError Settings :=
  match LogLevel.ofName? declared.levelName with
  | some level =>
    .ok ⟨declared.scope, declared.stopWhenSatisfied, level, declared.format⟩
  | none => .error (.unknownLevel declared.levelName)

end DeclaredSettings

namespace Settings

/-- The settings that a text gives. -/
def ofBytes (bytes : List UInt8) : Except SettingsError Settings :=
  match String.fromUTF8? bytes.toByteArray with
  | none => .error .notUtf8
  | some _ =>
    match (Json.read? bytes).bind DeclaredSettings.ofJson? with
    | some declared => declared.resolve
    | none => .error .malformed

/-- Reads the settings under a path. -/
def load (disk : Disk) (path : Path) : Except SettingsError Settings :=
  match disk.look path >>= FileContent.read with
  | .error cause => .error (.unreadable cause)
  | .ok bytes => ofBytes bytes

/-- Reads the settings under a path, if there is one; otherwise the defaults hold. -/
def loadOrDefault (disk : Disk) : Option Path → Except SettingsError Settings
  | some path => load disk path
  | none => .ok {}

def runOptions (settings : Settings) : RunOptions :=
  ⟨settings.scope, settings.stopWhenSatisfied⟩

end Settings
end RequiredKeys
