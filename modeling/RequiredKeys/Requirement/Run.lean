import RequiredKeys.Requirement.Outstanding
import RequiredKeys.Token.Source

/-!
# Runs over a source of tokens

A run pulls tokens from a source and lets each admitted one take its name away.
It ends at the end of the source, at the first failure, or, if so asked, as soon
as nothing is outstanding; then it has pulled nothing behind the deciding key.

A run also keeps an account of what it does, event by event.  An account of a
failed run stops where the failure happened.
-/

namespace RequiredKeys

/-- Which keys may take a name away. -/
inductive MatchScope
  /-- Any key at any depth. -/
  | anywhere
  /-- Keys of root objects only. -/
  | topLevel
  deriving DecidableEq, Repr, Inhabited

structure RunOptions where
  scope : MatchScope := .anywhere
  /-- Stop pulling tokens once nothing is outstanding. -/
  stopWhenSatisfied : Bool := true
  deriving DecidableEq, Repr, Inhabited

/-- Something that a run reports while it goes on. -/
inductive RunEvent
  | token (kind : TokenKind) (depth : Nat)
  | found (name : String) (remaining : Nat)
  | finished (tokens : Nat) (reachedEnd : Bool) (missing : Nat)
  deriving DecidableEq, Repr, Inhabited

/-- What a run has found out. -/
structure RunOutcome where
  outstanding : Outstanding
  /-- The number of tokens pulled. -/
  tokens : Nat
  /-- Whether the source came to its end. -/
  reachedEnd : Bool
  deriving DecidableEq, Repr, Inhabited

/-- The outcome of a run, the source it leaves, and its account. -/
structure Run (σ : Type) where
  result : Except StreamError RunOutcome
  source : σ
  events : List RunEvent

namespace MatchScope

def admits (scope : MatchScope) (token : Token) : Bool :=
  match scope with
  | anywhere => true
  | topLevel => token.depth == 1

end MatchScope

namespace RunOutcome

def hasErrors (outcome : RunOutcome) : Bool :=
  outcome.outstanding.hasErrors

end RunOutcome

/-- A run that is still going on. -/
structure Progress where
  outstanding : Outstanding
  tokens : Nat := 0
  events : Array RunEvent := #[]
  deriving DecidableEq, Repr, Inhabited

namespace Progress

/-- Lets one token take its name away, if the scope admits it. -/
def offer (progress : Progress) (scope : MatchScope) (token : Token) : Progress :=
  let events := progress.events.push (.token token.kind token.depth)
  if scope.admits token then
    let left := progress.outstanding.observe token
    if left.remaining < progress.outstanding.remaining then
      ⟨left, progress.tokens, events.push (.found (token.text.getD "") left.remaining)⟩
    else ⟨left, progress.tokens, events⟩
  else ⟨progress.outstanding, progress.tokens, events⟩

/-- Counts one pull that gave a token, and offers the token. -/
def advance (progress : Progress) (scope : MatchScope) (current : Option Token) : Progress :=
  let counted := { progress with tokens := progress.tokens + 1 }
  match current with
  | some token => counted.offer scope token
  | none => counted

/-- Ends a run that has not failed. -/
def conclude {σ : Type} (progress : Progress) (source : σ) (reachedEnd : Bool) : Run σ :=
  let finished := RunEvent.finished progress.tokens reachedEnd progress.outstanding.remaining
  ⟨.ok ⟨progress.outstanding, progress.tokens, reachedEnd⟩, source,
    (progress.events.push finished).toList⟩

/-- Goes on until the run ends. -/
def run {σ : Type} [TokenSource σ] (options : RunOptions) (progress : Progress) (source : σ) :
    Run σ :=
  if options.stopWhenSatisfied && progress.outstanding.isSatisfied then
    progress.conclude source false
  else
    match hnext : TokenSource.next source with
    | (.error error, rest) => ⟨.error error, rest, progress.events.toList⟩
    | (.ok none, rest) => progress.conclude rest true
    | (.ok (some kind), rest) =>
      have : TokenSource.unread rest < TokenSource.unread source := by
        have hlt := TokenSource.unread_next_lt source kind (by rw [hnext])
        rwa [hnext] at hlt
      (progress.advance options.scope (TokenSource.current rest)).run options rest
termination_by TokenSource.unread source

end Progress

namespace Outstanding

/-- Runs a source against the outstanding names. -/
def run {σ : Type} [TokenSource σ] (outstanding : Outstanding) (options : RunOptions)
    (source : σ) : Run σ :=
  Progress.run options { outstanding := outstanding } source

end Outstanding
end RequiredKeys
