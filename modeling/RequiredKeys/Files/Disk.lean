import RequiredKeys.Files.Path

/-!
# What the file system answers

The programs of this library ask a file system two things: what stands under a
path, and which entries a directory has.  A `Disk` is the table of these
answers, at one moment; the order of a listing means nothing.
-/

namespace RequiredKeys

/-- Why a path could not be used. -/
inductive SystemError
  | notFound
  | notADirectory
  | isADirectory
  | nameTooLong
  | zeroByte
  /-- Another fault, in the words of the system. -/
  | described (text : String)
  deriving DecidableEq, Repr, Inhabited

/-- What stands under a path that can be opened. -/
inductive FileContent
  | file (bytes : List UInt8)
  | directory
  deriving DecidableEq, Repr, Inhabited

structure Disk where
  look : Path → Except SystemError FileContent
  list : Path → Except SystemError (List FileName)

namespace SystemError

def numbered (text : String) (number : Nat) : String :=
  text ++ " (os error " ++ toString number ++ ")"

def message : SystemError → String
  | notFound => numbered "No such file or directory" 2
  | notADirectory => numbered "Not a directory" 20
  | isADirectory => numbered "Is a directory" 21
  | nameTooLong => numbered "File name too long" 36
  | zeroByte => "file name contained an unexpected NUL byte"
  | described text => text

end SystemError

namespace FileContent

/-- The bytes read.  A directory can be opened like a file, but not read. -/
def read : FileContent → Except SystemError (List UInt8)
  | file bytes => .ok bytes
  | directory => .error .isADirectory

end FileContent
end RequiredKeys
