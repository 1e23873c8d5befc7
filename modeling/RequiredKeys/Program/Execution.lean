import RequiredKeys.Program.Arguments
import RequiredKeys.Program.Log
import RequiredKeys.Program.Response

/-!
# Running a command line

A run of the program is a function of its arguments, the disk, its standard
input and one environment variable.  It gives what is written to standard
output, the log lines, and the exit code: 0 if the schema is well-formed or the
document valid, 1 if not, and 2 if the arguments could not be understood.

The stages of a check come in this order: settings, opening the document,
loading the schema, its clause, the document itself.  The first that fails gives
the response.
-/

namespace RequiredKeys

/-- Everything that a run of the program depends on. -/
structure Surroundings where
  disk : Disk
  standardInput : Feed := []
  /-- The text of the variable that chooses what is logged, if it is set. -/
  logVariable : Option String := none

/-- What a run of the program leaves behind. -/
structure Execution where
  exitCode : Nat
  output : String
  logFormat : LogFormat := .text
  log : List String := []
  deriving DecidableEq, Repr, Inhabited

/-- The end of a command: what it reported, and its response with the exit code, or
why there is none. -/
structure Conclusion where
  events : List Event := []
  result : Except Failure (Json × Bool)

namespace Surroundings

/-- The document that a path names, as a feed. -/
def openDocument (surroundings : Surroundings) (path : Path) : Except Failure Feed :=
  if Arguments.isStandardInput path then .ok surroundings.standardInput
  else
    match surroundings.disk.look path with
    | .error cause => .error (Failure.unopened path cause)
    | .ok content =>
      match content.read with
      | .ok bytes => .ok (Feed.ofBytes bytes)
      | .error cause => .ok [.failure cause.message]

end Surroundings

namespace Command

/-- Reads the clause of a schema and answers with its names. -/
def runCompile (disk : Disk) (schemaPath : Path) : Conclusion :=
  match disk.loadSchema schemaPath with
  | .error error => ⟨[], .error (Failure.ofLoad error)⟩
  | .ok schema =>
    let clause := Clause.ofSchema schema
    let result := clause.names?.mapError Failure.ofClause
    ⟨(Event.ofClause? clause).toList,
      result.map (fun names => (Response.ofNames names, true))⟩

/-- Runs a document against a clause that has been read. -/
def runClause (clause : Clause) (feed : Feed) (options : RunOptions) : Conclusion :=
  match clause.runFeed feed options with
  | .error error => ⟨[], .error (Failure.ofClause error)⟩
  | .ok run =>
    let events := run.events.map Event.run
    match run.result with
    | .error error => ⟨events, .error (Failure.ofStream error)⟩
    | .ok outcome =>
      let valid := !outcome.hasErrors
      ⟨events ++ [.checked valid outcome.tokens], .ok (Response.ofOutcome outcome, valid)⟩

/-- Checks an open document against the schema under a path. -/
def runCheck (disk : Disk) (schemaPath : Path) (feed : Feed) (options : RunOptions) :
    Conclusion :=
  match disk.loadSchema schemaPath with
  | .error error => ⟨[], .error (Failure.ofLoad error)⟩
  | .ok schema =>
    let clause := Clause.ofSchema schema
    let rest := runClause clause feed options
    { rest with events := .validating schemaPath :: (Event.ofClause? clause).toList ++ rest.events }

/-- The options of a check: its flags go before the settings. -/
def runOptions (settings : Settings) (topLevel readAll : Bool) : RunOptions :=
  let options := settings.runOptions
  ⟨if topLevel then .topLevel else options.scope, options.stopWhenSatisfied && !readAll⟩

def run (command : Command) (settings : Settings) (surroundings : Surroundings) : Conclusion :=
  match command with
  | compile schema => runCompile surroundings.disk schema
  | check schema topLevel readAll document =>
    match surroundings.openDocument document with
    | .error failure => ⟨[], .error failure⟩
    | .ok feed =>
      runCheck surroundings.disk schema feed (runOptions settings topLevel readAll)

end Command

namespace Execution

/-- What asking for the version prints. -/
def versionText : String := "streamschema 0.1.0\n"

/-- What asking for help prints. -/
def helpText : String :=
  "Usage: streamschema [--config FILE] compile --schema FILE\n" ++
  "       streamschema [--config FILE] check --schema FILE [--top-level] [--read-all] [DOCUMENT]\n"

def ofRefrain : Refrain → Execution
  | .version => { exitCode := 0, output := versionText }
  | .help => { exitCode := 0, output := helpText }
  | .misuse => { exitCode := 2, output := "" }

/-- The response of a command and its exit code. -/
def respond : Except Failure (Json × Bool) → Nat × String
  | .ok (data, valid) => (if valid then 0 else 1, Response.line (Response.success data))
  | .error failure => (1, Response.line (Response.failure failure))

def ofInvocation (invocation : Invocation) (surroundings : Surroundings) : Execution :=
  match Settings.loadOrDefault surroundings.disk invocation.settings with
  | .error error =>
    let (exitCode, output) := respond (.error (Failure.ofSettings error))
    { exitCode := exitCode, output := output }
  | .ok settings =>
    let conclusion := invocation.command.run settings surroundings
    let filter := LogFilter.choose surroundings.logVariable settings
    let records := conclusion.events.map Event.record
    let shown := records.filter (fun record => filter.shows record.level)
    let (exitCode, output) := respond conclusion.result
    { exitCode := exitCode, output := output, logFormat := settings.format,
      log := shown.flatMap (LogRecord.lines settings.format) }

/-- Runs the program. -/
def run (arguments : List String) (surroundings : Surroundings) : Execution :=
  match Arguments.parse arguments with
  | .error refrain => ofRefrain refrain
  | .ok invocation => ofInvocation invocation surroundings

end Execution
end RequiredKeys
