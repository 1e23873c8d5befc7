import RequiredKeys.Files.Tree
import RequiredKeys.Program.Execution

/-!
# The command-line program

This module looks up the files that the arguments name, runs the program on
them, and writes what it leaves behind.
-/

namespace RequiredKeys
namespace CommandLine

/-- The system's reason for a failed operation. -/
def causeOf : IO.Error → SystemError
  | .noFileOrDirectory _ _ _ => .notFound
  | .inappropriateType _ code details => if code = 20 then .notADirectory else .described details
  | error => .described (toString error)

/-- Opens what stands under a path and reads it. -/
def lookUp (path : Path) : IO (Except SystemError FileContent) := do
  let opened ← (IO.FS.Handle.mk path.display .read).toBaseIO
  match opened with
  | .error error => return .error (causeOf error)
  | .ok handle =>
    let content ← handle.readBinToEnd.toBaseIO
    match content with
    | .ok bytes => return .ok (.file bytes.toList)
    | .error _ => return .ok .directory

/-- The files that an invocation may need. -/
def pathsOf (invocation : Invocation) : List Path :=
  invocation.settings.toList ++
    match invocation.command with
    | .compile schema => [schema]
    | .check schema _ _ document => [schema, document]

/-- The disk as far as the given paths show it. -/
def diskOf (paths : List Path) : IO Disk := do
  let answers ← paths.mapM (fun path => return (path, ← lookUp path))
  return {
    look := fun path => (answers.lookup path).getD (.error .notFound)
    list := fun _ => .error .notFound }

/-- Whether standard input is the document. -/
def readsStandardInput (invocation : Invocation) : Bool :=
  match invocation.command with
  | .compile _ => false
  | .check _ _ _ document => Arguments.isStandardInput document

/-- Everything that standard input delivers. -/
partial def drain (stream : IO.FS.Stream) (read : ByteArray) : IO ByteArray := do
  let chunk ← stream.read 65536
  if chunk.isEmpty then return read else drain stream (read ++ chunk)

/-- What the arguments need to know of the world. -/
def surroundingsOf (arguments : List String) : IO Surroundings := do
  match Arguments.parse arguments with
  | .error _ => return { disk := FileTree.empty.disk }
  | .ok invocation =>
    let disk ← diskOf (pathsOf invocation)
    let input ←
      if readsStandardInput invocation then drain (← IO.getStdin) ByteArray.empty
      else pure ByteArray.empty
    return {
      disk := disk
      standardInput := Feed.ofBytes input.toList
      logVariable := ← IO.getEnv "RUST_LOG" }

end CommandLine
end RequiredKeys

def main (arguments : List String) : IO UInt32 := do
  let surroundings ← RequiredKeys.CommandLine.surroundingsOf arguments
  let execution := RequiredKeys.Execution.run arguments surroundings
  for line in execution.log do
    IO.eprintln line
  IO.print execution.output
  (← IO.getStdout).flush
  return UInt32.ofNat execution.exitCode
