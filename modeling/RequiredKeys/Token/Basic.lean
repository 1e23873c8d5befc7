/-!
# Tokens

A token is one step of a document: a bracket that opens or closes a container,
the key of a member, or a scalar value.  Its depth is the number of containers
open around it, so a closing bracket has the depth of its opening one and a key
has at least depth one.
-/

namespace RequiredKeys

inductive Container
  | object
  | array
  deriving DecidableEq, Repr, Inhabited

inductive TokenKind
  | startOf (container : Container)
  | endOf (container : Container)
  | fieldName
  | string
  | number
  | bool (value : Bool)
  | null
  deriving DecidableEq, Repr, Inhabited

structure Token where
  kind : TokenKind
  text : Option String := none
  depth : Nat
  deriving DecidableEq, Repr, Inhabited

namespace TokenKind

/-- Every kind, once. -/
def all : List TokenKind :=
  [startOf .object, endOf .object, startOf .array, endOf .array, fieldName,
    string, number, bool true, bool false, null]

def name : TokenKind → String
  | startOf .object => "START_OBJECT"
  | endOf .object => "END_OBJECT"
  | startOf .array => "START_ARRAY"
  | endOf .array => "END_ARRAY"
  | fieldName => "FIELD_NAME"
  | string => "VALUE_STRING"
  | number => "VALUE_NUMBER"
  | bool true => "VALUE_TRUE"
  | bool false => "VALUE_FALSE"
  | null => "VALUE_NULL"

def ofName? (name : String) : Option TokenKind :=
  all.find? (·.name == name)

theorem ofName?_name (kind : TokenKind) : ofName? kind.name = some kind := by
  cases kind with
  | startOf container => cases container <;> rfl
  | endOf container => cases container <;> rfl
  | bool value => cases value <;> rfl
  | _ => rfl

end TokenKind

namespace Token

/-- A key written in the root object. -/
def fieldName (name : String) (depth : Nat := 1) : Token :=
  ⟨.fieldName, some name, depth⟩

/-- The name that a token offers to a requirement: the text of a key. -/
def offeredName? (token : Token) : Option String :=
  match token.kind with
  | .fieldName => token.text
  | _ => none

@[simp] theorem offeredName?_fieldName (name : String) (depth : Nat) :
    (fieldName name depth).offeredName? = some name := rfl

end Token
end RequiredKeys
