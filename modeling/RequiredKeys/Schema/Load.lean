import RequiredKeys.Files.Disk
import RequiredKeys.Json.Reader
import RequiredKeys.Requirement.Clause

/-!
# Schemas in files

A schema file holds one JSON value.  A file that cannot be opened and a file
that holds no such value are told apart; a directory can be opened and holds
none.
-/

namespace RequiredKeys

/-- Why a schema could not be loaded. -/
inductive LoadError
  | unreadable (path : Path) (cause : SystemError)
  | malformed (path : Path)
  deriving DecidableEq, Repr, Inhabited

namespace LoadError

def code : LoadError → String
  | unreadable _ _ => "SCHEMA_IO_ERROR"
  | malformed _ => "SCHEMA_PARSE_ERROR"

def path : LoadError → Path
  | unreadable path _ => path
  | malformed path => path

def message : LoadError → String
  | unreadable path cause => "failed to read schema '" ++ path.display ++ "': " ++ cause.message
  | malformed path => "invalid JSON in schema '" ++ path.display ++ "'"

end LoadError

namespace Disk

/-- Reads the schema under a path. -/
def loadSchema (disk : Disk) (path : Path) : Except LoadError Json :=
  match disk.look path with
  | .error cause => .error (.unreadable path cause)
  | .ok content =>
    match content.read with
    | .error _ => .error (.malformed path)
    | .ok bytes =>
      match Json.read? bytes with
      | some schema => .ok schema
      | none => .error (.malformed path)

/-- Reads the clause of the schema under a path. -/
def loadClause (disk : Disk) (path : Path) : Except LoadError Clause :=
  (disk.loadSchema path).map Clause.ofSchema

end Disk
end RequiredKeys
