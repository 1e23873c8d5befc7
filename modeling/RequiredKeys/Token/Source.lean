import RequiredKeys.Token.Consumption

/-!
# Sources of tokens

Whoever consumes tokens asks a source for the next one and then looks at the
source's current token.  Every source is finite: `unread` bounds how many tokens
are still to come, so a loop over a source ends.

Two sources are given: the tokenizer, and a list of tokens that is played back.
-/

namespace RequiredKeys

/-- A forward-only cursor over tokens. -/
class TokenSource (σ : Type) where
  /-- Moves to the next token and tells its kind; `none` at the end. -/
  next : σ → Except StreamError (Option TokenKind) × σ
  /-- The token that the last move gave, if it gave one. -/
  current : σ → Option Token
  /-- A bound on the number of tokens to come. -/
  unread : σ → Nat
  unread_next_lt : ∀ (source : σ) (kind : TokenKind),
    (next source).1 = .ok (some kind) → unread (next source).2 < unread source

namespace Tokenizer

/-- Reads the next token and tells its kind. -/
def next (tokenizer : Tokenizer) : Except StreamError (Option TokenKind) × Tokenizer :=
  let (answer, rest) := tokenizer.pull
  (answer.map (·.map Token.kind), rest)

theorem next_eq (tokenizer : Tokenizer) :
    tokenizer.next = (tokenizer.pull.1.map (·.map Token.kind), tokenizer.pull.2) := rfl

theorem next_eq_ok_some {tokenizer : Tokenizer} {kind : TokenKind}
    (h : tokenizer.next.1 = .ok (some kind)) :
    ∃ token, tokenizer.pull.1 = .ok (some token) ∧ token.kind = kind := by
  rw [next_eq] at h
  cases hpull : tokenizer.pull.1 with
  | error error => simp [hpull, Except.map] at h
  | ok found =>
    cases found with
    | none => simp [hpull, Except.map] at h
    | some token =>
      simp only [hpull, Except.map, Option.map_some, Except.ok.injEq, Option.some.injEq] at h
      exact ⟨token, rfl, h⟩

instance : TokenSource Tokenizer where
  next := next
  current := current
  unread tokenizer := tokenizer.cursor.feed.length
  unread_next_lt tokenizer kind h := by
    obtain ⟨token, hpull, -⟩ := next_eq_ok_some h
    exact length_feed_pull_lt hpull

end Tokenizer

/-- A list of tokens that is played back. -/
structure Replay where
  tokens : List Token
  current : Option Token := none
  deriving DecidableEq, Repr, Inhabited

namespace Replay

def next (replay : Replay) : Except StreamError (Option TokenKind) × Replay :=
  match replay.tokens with
  | [] => (.ok none, ⟨[], none⟩)
  | token :: rest => (.ok (some token.kind), ⟨rest, some token⟩)

instance : TokenSource Replay where
  next := next
  current := current
  unread replay := replay.tokens.length
  unread_next_lt replay kind h := by
    unfold next at h ⊢
    split at h
    · simp at h
    · next token rest htokens => simp [htokens]

end Replay
end RequiredKeys
