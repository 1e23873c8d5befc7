import RequiredKeys.Program.Settings
import RequiredKeys.Requirement.Check
import RequiredKeys.Schema.Load

/-!
# Failures of a command

Whatever ends a command early is reported by a code and a message.  The code is
that of the error it came from, and the kind of a failure says which part of the
program that was.
-/

namespace RequiredKeys

/-- Where a failure comes from, with the code of the error where there are several. -/
inductive FailureKind
  | settings
  /-- Input or output other than a schema's or a stream's. -/
  | inputOutput
  | load (code : String)
  | clause (code : String)
  | stream (code : String)
  deriving DecidableEq, Repr, Inhabited

def FailureKind.code : FailureKind → String
  | .settings => SettingsError.code
  | .inputOutput => "IO_ERROR"
  | .load code => code
  | .clause code => code
  | .stream code => code

structure Failure where
  kind : FailureKind
  message : String
  deriving DecidableEq, Repr, Inhabited

namespace Failure

/-- The code under which it is reported. -/
def code (failure : Failure) : String :=
  failure.kind.code

/-- A fault of the settings, in the given words. -/
def settingsFault (message : String) : Failure :=
  ⟨.settings, message⟩

def ioFault (message : String) : Failure :=
  ⟨.inputOutput, message⟩

def ofSettings (error : SettingsError) : Failure :=
  settingsFault error.message

/-- A document that could not be opened. -/
def unopened (path : Path) (cause : SystemError) : Failure :=
  ioFault ("Failed to open document '" ++ path.display ++ "': " ++ cause.message)

def ofLoad (error : LoadError) : Failure :=
  ⟨.load error.code, error.message⟩

def ofClause (error : ClauseError) : Failure :=
  ⟨.clause error.code, error.message⟩

def ofStream (error : StreamError) : Failure :=
  ⟨.stream error.code, error.message⟩

def ofCheck : CheckError → Failure
  | .clause error => ofClause error
  | .stream error => ofStream error

/-- The failure in one line. -/
def display (failure : Failure) : String :=
  failure.code ++ ": " ++ failure.message

end Failure
end RequiredKeys
