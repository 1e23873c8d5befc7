import RequiredKeys.Json.Value

/-!
# The `required` clause of a schema

A schema requires names by an array of distinct strings under the key
`required`.  A schema without the key, or one that is no object, requires
nothing.  A clause of any other form is malformed; of several faults the first
in this order counts: it is no array, it holds something that is no string, it
names a string twice.
-/

namespace RequiredKeys

/-- What is wrong with a malformed clause. -/
inductive ClauseError
  | notAnArray (found : Json.Kind)
  /-- The kinds of the elements that are no strings, in order. -/
  | nonStringElements (kinds : List Json.Kind)
  /-- The repeated names, each once, in the order in which they first occur. -/
  | duplicateNames (names : List String)
  deriving DecidableEq, Repr, Inhabited

/-- What a schema says under `required`. -/
inductive Clause
  | absent
  | names (list : List String)
  | malformed (error : ClauseError)
  deriving DecidableEq, Repr, Inhabited

namespace ClauseError

def code : ClauseError → String
  | notAnArray _ => "REQUIRED_NOT_ARRAY"
  | nonStringElements _ => "REQUIRED_NON_STRING_ELEMENTS"
  | duplicateNames _ => "REQUIRED_DUPLICATE_NAMES"

/-- A list as messages show it. -/
def bracketed (items : List String) : String :=
  "[" ++ ", ".intercalate items ++ "]"

def message : ClauseError → String
  | notAnArray found => "\"required\" field contains " ++ found.name ++ " instead of array"
  | nonStringElements kinds =>
    "\"required\" field contains array, including " ++ bracketed (kinds.map Json.Kind.name) ++
      " node types instead of only strings"
  | duplicateNames names => "\"required\" field contains duplicates: " ++ bracketed names

end ClauseError

namespace Clause

/-- The key under which a schema lists its required names. -/
def keyword : String := "required"

/-- The names that occur more than once, each once, in the order in which they
first occur. -/
def repeated (names : List String) : List String :=
  names.eraseDups.filter (fun name => 1 < names.count name)

/-- Reads the elements of a clause. -/
def ofElements (elements : List Json) : Clause :=
  let names := elements.filterMap Json.string?
  let others := elements.filter (fun element => element.string?.isNone)
  if !others.isEmpty then malformed (.nonStringElements (others.map Json.kind))
  else if !(repeated names).isEmpty then malformed (.duplicateNames (repeated names))
  else Clause.names names

/-- Reads the value under the keyword. -/
def ofValue (value : Json) : Clause :=
  match value.array? with
  | some elements => ofElements elements
  | none => malformed (.notAnArray value.kind)

/-- The clause of a schema. -/
def ofSchema (schema : Json) : Clause :=
  match schema.member? keyword with
  | some value => ofValue value
  | none => absent

/-- The required names, if the clause is present and well-formed. -/
def names? : Clause → Except ClauseError (Option (List String))
  | absent => .ok none
  | names list => .ok (some list)
  | malformed error => .error error

end Clause
end RequiredKeys
