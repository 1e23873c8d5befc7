import RequiredKeys.Text.Ascii
import RequiredKeys.Text.Lossy

/-!
# Paths and file names

Paths are bytes, taken as they were given: nothing is normalised, and a path is
shown as it was written.  Only where a path is compared with a name, what stays in
place behind the name does not count: `a`, `a/` and `a//.` are the same name, and
`./a` is none.
-/

namespace RequiredKeys

/-- The name of an entry of a directory. -/
abbrev FileName := List UInt8

/-- Whether following a name leads nowhere else: it is empty or a point. -/
def FileName.stays (name : FileName) : Bool :=
  name = [] ∨ name = [Ascii.point]

structure Path where
  bytes : List UInt8
  deriving DecidableEq, Repr, Inhabited

namespace Path

def ofString (text : String) : Path :=
  ⟨text.toUTF8.toList⟩

/-- The text of a path whose bytes are UTF-8. -/
def text? (path : Path) : Option String :=
  String.fromUTF8? path.bytes.toByteArray

/-- The path as messages show it. -/
def display (path : Path) : String :=
  Lossy.decode path.bytes

/-- The path of an entry of the directory `path`. -/
def entry (path : Path) (name : FileName) : Path :=
  if path.bytes.getLast? = some Ascii.slash then ⟨path.bytes ++ name⟩
  else ⟨path.bytes ++ Ascii.slash :: name⟩

/-- The names between the slashes; empty ones stand for doubled and outer slashes. -/
def components (path : Path) : List FileName :=
  path.bytes.splitOn Ascii.slash

/-- Whether a path is a name, with nothing behind it but what stays in place. -/
def isName (path : Path) (name : FileName) : Bool :=
  match path.components with
  | first :: rest => first = name ∧ rest.all FileName.stays
  | [] => false

end Path

namespace FileName

/-- The stem and the extension around the last point.  A name has none if it holds
no point, or only one in front. -/
def split? (name : FileName) : Option (FileName × FileName) :=
  let reversed := name.reverse
  let extension := (reversed.takeWhile (· != Ascii.point)).reverse
  match reversed.dropWhile (· != Ascii.point) with
  | _ :: reversedStem => if reversedStem.isEmpty then none else some (reversedStem.reverse, extension)
  | [] => none

def ofString (text : String) : FileName :=
  text.toUTF8.toList

/-- The stem of a file name with the given extension. -/
def stemBefore? (name : FileName) (extension : FileName) : Option FileName :=
  match split? name with
  | some (stem, found) => if found = extension then some stem else none
  | none => none

end FileName
end RequiredKeys
