import RequiredKeys.Requirement.Clause
import RequiredKeys.Token.Basic

/-!
# Outstanding names

The required names that a document has not shown yet, in the order in which the
schema lists them.  Each key of the document takes the name it equals away.
Other tokens change nothing, and where nothing is outstanding nothing ever will
be.

A list of names may be given with repeats; a name is then outstanding once, at
its first place, so that one key satisfies it.
-/

namespace RequiredKeys

structure Outstanding where
  names : List String
  deriving DecidableEq, Repr, Inhabited

namespace Outstanding

/-- Every name of the list is outstanding. -/
def ofNames (names : List String) : Outstanding :=
  ⟨names.eraseDups⟩

/-- Nothing is outstanding. -/
def satisfied : Outstanding :=
  ofNames []

/-- What a clause makes outstanding.  A malformed clause starts no validation. -/
def ofClause : Clause → Except ClauseError Outstanding
  | .absent => .ok satisfied
  | .names list => .ok (ofNames list)
  | .malformed error => .error error

def remaining (outstanding : Outstanding) : Nat :=
  outstanding.names.length

def isSatisfied (outstanding : Outstanding) : Bool :=
  outstanding.names.isEmpty

def hasErrors (outstanding : Outstanding) : Bool :=
  !outstanding.names.isEmpty

/-- Takes away the name that a token offers. -/
def observe (outstanding : Outstanding) (token : Token) : Outstanding :=
  match token.offeredName? with
  | some name => ⟨outstanding.names.erase name⟩
  | none => outstanding

/-- Takes away the names that several tokens offer, one token after the other. -/
def observeAll (outstanding : Outstanding) (tokens : List Token) : Outstanding :=
  tokens.foldl observe outstanding

@[simp] theorem observeAll_nil (outstanding : Outstanding) :
    outstanding.observeAll [] = outstanding := rfl

@[simp] theorem observeAll_cons (outstanding : Outstanding) (token : Token) (tokens : List Token) :
    outstanding.observeAll (token :: tokens) = (outstanding.observe token).observeAll tokens := rfl

theorem observe_of_offeredName?_eq_none {outstanding : Outstanding} {token : Token}
    (h : token.offeredName? = none) : outstanding.observe token = outstanding := by
  simp [observe, h]

theorem observe_of_offeredName?_eq_some {outstanding : Outstanding} {token : Token} {name : String}
    (h : token.offeredName? = some name) :
    outstanding.observe token = ⟨outstanding.names.erase name⟩ := by
  simp [observe, h]

end Outstanding
end RequiredKeys
