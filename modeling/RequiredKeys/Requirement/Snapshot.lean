import RequiredKeys.Requirement.Outstanding

/-!
# Snapshots and their identity

Two snapshots of outstanding names can be equal without being the same one.  A
snapshot is new when it is made from names, or when a token takes a name away;
a copy, and an observation that takes nothing away, is the snapshot it came
from.  A history numbers the snapshots it has made, and no step changes an
earlier one.
-/

namespace RequiredKeys

structure Snapshot where
  outstanding : Outstanding
  identity : Nat
  deriving DecidableEq, Repr, Inhabited

/-- The snapshots made so far, the oldest first, and the number of identities given out. -/
structure History where
  snapshots : List Snapshot := []
  issued : Nat := 0
  deriving DecidableEq, Repr, Inhabited

namespace Snapshot

/-- Whether two snapshots are the same one. -/
def shares (left right : Snapshot) : Bool :=
  left.identity == right.identity

end Snapshot

namespace History

def snapshot? (history : History) (index : Nat) : Option Snapshot :=
  history.snapshots[index]?

/-- Adds a snapshot that is new. -/
def create (history : History) (outstanding : Outstanding) : History :=
  ⟨history.snapshots ++ [⟨outstanding, history.issued⟩], history.issued + 1⟩

/-- Adds a snapshot made earlier once more. -/
def keep (history : History) (snapshot : Snapshot) : History :=
  { history with snapshots := history.snapshots ++ [snapshot] }

/-- Adds what is left of a snapshot behind a token.  Only a token that offers one of the
names makes a new snapshot; behind any other one it is still the same. -/
def observe (history : History) (snapshot : Snapshot) (token : Token) : History :=
  match token.offeredName? with
  | some name =>
    if name ∈ snapshot.outstanding.names then
      history.create ⟨snapshot.outstanding.names.erase name⟩
    else history.keep snapshot
  | none => history.keep snapshot

/-- One way to add a snapshot; an index names one that was made earlier. -/
inductive Step
  | ofNames (names : List String)
  | satisfied
  | seed (clause : Clause)
  | copy (index : Nat)
  | observe (index : Nat) (token : Token)
  deriving DecidableEq, Repr, Inhabited

/-- Takes one step.  A malformed clause and an index without a snapshot add nothing. -/
def perform (history : History) : Step → History
  | .ofNames names => history.create (Outstanding.ofNames names)
  | .satisfied => history.create Outstanding.satisfied
  | .seed clause =>
    match Outstanding.ofClause clause with
    | .ok outstanding => history.create outstanding
    | .error _ => history
  | .copy index =>
    match history.snapshot? index with
    | some snapshot => history.keep snapshot
    | none => history
  | .observe index token =>
    match history.snapshot? index with
    | some snapshot => history.observe snapshot token
    | none => history

/-- The history that some steps make, one after the other. -/
def ofSteps (steps : List Step) : History :=
  steps.foldl perform {}

end History
end RequiredKeys
