import RequiredKeys.Json.Writer
import RequiredKeys.Program.Failure

/-!
# Responses

A command answers with one JSON object on one line.  Its member `status` is
`ok`, and then the answer stands under `data`, or it is `error`, and then a code
and a message say why.  The members of an object stand in the order of their
keys.
-/

namespace RequiredKeys
namespace Response

def success (data : Json) : Json :=
  .object [("data", data), ("status", .string "ok")]

def failure (reason : Failure) : Json :=
  .object [("code", .string reason.code), ("message", .string reason.message),
    ("status", .string "error")]

/-- The answer to a schema without a clause, or with a well-formed one. -/
def ofNames (names : Option (List String)) : Json :=
  .object [("absent", .bool names.isNone), ("required", .ofStrings (names.getD []))]

/-- The answer to a document that has been checked. -/
def ofOutcome (outcome : RunOutcome) : Json :=
  .object [("missing", .ofStrings outcome.outstanding.names),
    ("reached_end", .bool outcome.reachedEnd), ("tokens", .ofNat outcome.tokens),
    ("valid", .bool !outcome.hasErrors)]

/-- The line that holds a response. -/
def line (response : Json) : String :=
  response.compact ++ "\n"

end Response
end RequiredKeys
