/-!
# JSON values

A value keeps what its text says, as far as anything in this library can tell:
numbers stay texts, and an object keeps its members in order, repeated keys
included.  Where a key is repeated the last member counts.
-/

namespace RequiredKeys

inductive Json
  | null
  | bool (value : Bool)
  | number (text : String)
  | string (value : String)
  | array (elements : List Json)
  | object (members : List (String × Json))
  deriving Inhabited

namespace Json

/-- The kinds of value that a schema author distinguishes. -/
inductive Kind
  | object
  | array
  | string
  | number
  | boolean
  | null
  deriving DecidableEq, Repr, Inhabited

namespace Kind

def name : Kind → String
  | object => "object"
  | array => "array"
  | string => "string"
  | number => "number"
  | boolean => "boolean"
  | null => "null"

end Kind

def kind : Json → Kind
  | null => .null
  | bool _ => .boolean
  | number _ => .number
  | string _ => .string
  | array _ => .array
  | object _ => .object

/-- The value of a member, if the value is an object that has one of this name. -/
def member? (json : Json) (name : String) : Option Json :=
  match json with
  | object members => members.reverse.lookup name
  | _ => none

def string? : Json → Option String
  | string value => some value
  | _ => none

def array? : Json → Option (List Json)
  | array elements => some elements
  | _ => none

/-- The array of the given strings. -/
def ofStrings (strings : List String) : Json :=
  array (strings.map string)

def ofNat (n : Nat) : Json :=
  number (toString n)

end Json
end RequiredKeys
