import RequiredKeys.Schema.Load

/-!
# A registry of schemas

A registry knows the clauses of schemas by name.  The names are kept in the
order of their UTF-8 bytes, each once, and a name that is written again gets the
new clause.

A whole directory can be loaded.  Its schemas are the entries with the extension
`json`, each named by its stem; an entry whose stem is no text is passed over.
They are loaded in the order of their names, whatever the order of the listing.
The first that cannot be loaded ends the loading, and those before it stay.  A
malformed clause is no failure: it is what the schema says.
-/

namespace RequiredKeys

structure Registry where
  entries : List (String × Clause) := []
  deriving DecidableEq, Repr, Inhabited

/-- The order of texts by their UTF-8 bytes. -/
def utf8Before (left right : String) : Bool :=
  decide (left.toUTF8.toList < right.toUTF8.toList)

namespace Registry

/-- Puts a clause under its name into entries that are in order. -/
def insertEntry (name : String) (clause : Clause) :
    List (String × Clause) → List (String × Clause)
  | [] => [(name, clause)]
  | entry :: rest =>
    if name = entry.1 then (name, clause) :: rest
    else if utf8Before name entry.1 then (name, clause) :: entry :: rest
    else entry :: insertEntry name clause rest

def insert (registry : Registry) (name : String) (clause : Clause) : Registry :=
  ⟨insertEntry name clause registry.entries⟩

/-- Reads the clause of a schema and keeps it under a name. -/
def register (registry : Registry) (name : String) (schema : Json) : Registry :=
  registry.insert name (Clause.ofSchema schema)

def get? (registry : Registry) (name : String) : Option Clause :=
  registry.entries.lookup name

def contains (registry : Registry) (name : String) : Bool :=
  (registry.get? name).isSome

def names (registry : Registry) : List String :=
  registry.entries.map Prod.fst

def size (registry : Registry) : Nat :=
  registry.entries.length

def isEmpty (registry : Registry) : Bool :=
  registry.entries.isEmpty

/-! ## Directories -/

/-- The extension of schema files. -/
def schemaExtension : FileName :=
  FileName.ofString "json"

/-- The name of the schema in a file, if the file is a schema file with a name. -/
def schemaName? (name : FileName) : Option String :=
  (name.stemBefore? schemaExtension).bind (fun stem => String.fromUTF8? stem.toByteArray)

/-- The order of file names by their bytes. -/
def fileNameLe (left right : FileName) : Bool :=
  decide (¬ right < left)

/-- The schema files of a listing in the order of their names, with the names of
their schemas. -/
def schemaFiles (listing : List FileName) : List (FileName × String) :=
  (listing.mergeSort fileNameLe).filterMap (fun file => (schemaName? file).map (file, ·))

/-- Loads schema files one after the other, up to the first that fails. -/
def loadFiles (registry : Registry) (disk : Disk) (directory : Path) :
    List (FileName × String) → Option LoadError × Registry
  | [] => (none, registry)
  | (file, name) :: rest =>
    match disk.loadClause (directory.entry file) with
    | .error error => (some error, registry)
    | .ok clause => (registry.insert name clause).loadFiles disk directory rest

/-- Loads the schemas of a directory.  The result is their number. -/
def loadDirectory (registry : Registry) (disk : Disk) (directory : Path) :
    Except LoadError Nat × Registry :=
  match disk.list directory with
  | .error cause => (.error (.unreadable directory cause), registry)
  | .ok listing =>
    let files := schemaFiles listing
    match registry.loadFiles disk directory files with
    | (some error, loaded) => (.error error, loaded)
    | (none, loaded) => (.ok files.length, loaded)

end Registry
end RequiredKeys
