import RequiredKeys.Requirement.Run

/-!
# Checking a document against a schema

A check reads the clause of a schema and runs a document against it.  If the
clause is malformed the document is not looked at.
-/

namespace RequiredKeys

/-- A check fails by the schema or by the document. -/
inductive CheckError
  | clause (error : ClauseError)
  | stream (error : StreamError)
  deriving DecidableEq, Repr, Inhabited

namespace CheckError

def code : CheckError → String
  | clause error => error.code
  | stream error => error.code

def message : CheckError → String
  | clause error => error.message
  | stream error => error.message

end CheckError

/-- Runs a feed against a clause. -/
def Clause.runFeed (clause : Clause) (feed : Feed) (options : RunOptions) :
    Except ClauseError (Run Tokenizer) :=
  (Outstanding.ofClause clause).map (·.run options (Tokenizer.ofFeed feed))

/-- Checks the document that a feed delivers. -/
def check (schema : Json) (feed : Feed) (options : RunOptions) : Except CheckError RunOutcome :=
  match (Clause.ofSchema schema).runFeed feed options with
  | .error error => .error (.clause error)
  | .ok run => run.result.mapError .stream

end RequiredKeys
