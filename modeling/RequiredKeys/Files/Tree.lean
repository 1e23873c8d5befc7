import RequiredKeys.Files.Disk

/-!
# Trees of files

A finite tree of directories and files, and the disk that it is.  Paths are
followed from the root, one name after the other: every name but the last must
stand for a directory, a point stays, and two points go back.  What lies outside
the tree is taken for directories without entries.
-/

namespace RequiredKeys

inductive FileTree
  | file (bytes : List UInt8)
  | directory (entries : List (FileName × FileTree))
  deriving Inhabited

namespace FileTree

/-- Longer names are refused. -/
def maxNameLength : Nat := 255

/-- Paths of this length, or longer, are refused. -/
def pathLimit : Nat := 4096

def empty : FileTree := directory []

def entries : FileTree → List (FileName × FileTree)
  | file _ => []
  | directory entries => entries

/-- Puts something in the place of an entry, or behind the others. -/
def setEntry (name : FileName) (tree : FileTree) :
    List (FileName × FileTree) → List (FileName × FileTree)
  | [] => [(name, tree)]
  | entry :: rest =>
    if entry.1 = name then (name, tree) :: rest else entry :: setEntry name tree rest

/-- Puts a tree under a path of names, and makes the directories on the way. -/
def insert (added : FileTree) : List FileName → FileTree → FileTree
  | [], _ => added
  | name :: names, tree =>
    let inner := (tree.entries.lookup name).getD empty
    directory (setEntry name (insert added names inner) tree.entries)

/-- Names that name something, without the points that stay. -/
def namesOf (path : Path) : List FileName :=
  path.components.filter (!FileName.stays ·)

/-- Puts a file under a path. -/
def addFile (tree : FileTree) (path : Path) (bytes : List UInt8) : FileTree :=
  insert (file bytes) (namesOf path) tree

/-- Makes sure that there is a directory under a path. -/
def addDirectory (tree : FileTree) (path : Path) : FileTree :=
  let names := namesOf path
  let inner := names.foldl (fun inner name => (inner.entries.lookup name).getD empty) tree
  insert (directory inner.entries) names tree

/-- Follows names from a directory; `above` are the directories over it, the
nearest first. -/
def follow (tree : FileTree) (above : List FileTree) :
    List FileName → Except SystemError FileTree
  | [] => .ok tree
  | name :: names =>
    match tree with
    | file _ => .error .notADirectory
    | directory entries =>
      if FileName.stays name then follow tree above names
      else if name = [Ascii.point, Ascii.point] then
        match above with
        | [] => follow empty [] names
        | outer :: rest => follow outer rest names
      else if maxNameLength < name.length then .error .nameTooLong
      else
        match entries.lookup name with
        | none => .error .notFound
        | some inner => follow inner (tree :: above) names

/-- What stands under a path. -/
def resolve (tree : FileTree) (path : Path) : Except SystemError FileTree :=
  if 0 ∈ path.bytes then .error .zeroByte
  else if path.bytes = [] then .error .notFound
  else if pathLimit ≤ path.bytes.length then .error .nameTooLong
  else if path.bytes.head? = some Ascii.slash then empty.follow [] path.components
  else tree.follow [] path.components

def content : FileTree → FileContent
  | file bytes => .file bytes
  | directory _ => .directory

/-- The names in a directory. -/
def listing : FileTree → Except SystemError (List FileName)
  | file _ => .error .notADirectory
  | directory entries => .ok (entries.map Prod.fst)

/-- The disk whose only contents are the tree. -/
def disk (tree : FileTree) : Disk where
  look path := (tree.resolve path).map content
  list path := tree.resolve path >>= listing

end FileTree
end RequiredKeys
