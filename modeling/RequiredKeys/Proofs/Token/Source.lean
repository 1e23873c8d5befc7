import RequiredKeys.Token.Source
import RequiredKeys.Proofs.Token.Pull

/-!
# Laws of token sources

Whoever pulls from a source learns the kind of the next token from the move and the token
itself from the source.  `LawfulTokenSource` says that the two agree, for the tokenizer and for
a list that is played back; `TokenSource.firstTokens` are then the tokens of some moves, one per
move as long as each gives one.  `EndingTokenSource` says that nothing comes behind the end.

Since a move that gives a token uses some of the source up, a statement about all that a source
does can be proved from what holds behind such a move (`TokenSource.induction`).
-/

namespace RequiredKeys

/-- A source whose current token is the one that the last move has told, if it has told one. -/
class LawfulTokenSource (σ : Type) [TokenSource σ] : Prop where
  current_next : ∀ source : σ,
    (TokenSource.current (TokenSource.next source).2).map Token.kind =
      (TokenSource.next source).1.toOption.join

/-- The current token is what the last pull has answered. -/
theorem Tokenizer.current_pull (tokenizer : Tokenizer) :
    tokenizer.pull.2.current = tokenizer.pull.1.toOption.join := by
  unfold pull
  dsimp only
  split
  · rfl
  · rfl
  · split <;> rfl

/-- The token of a pull is the current one behind it. -/
theorem Tokenizer.current_of_pull {tokenizer next : Tokenizer} {token : Token}
    (h : tokenizer.pull = (.ok (some token), next)) : next.current = some token := by
  have hcurrent := tokenizer.current_pull
  rw [h] at hcurrent
  exact hcurrent

theorem Tokenizer.next_eq_of_pull {tokenizer next : Tokenizer} {token : Token}
    (h : tokenizer.pull = (.ok (some token), next)) :
    TokenSource.next tokenizer = (.ok (some token.kind), next) := by
  show tokenizer.next = _
  rw [next_eq, h]
  rfl

/-- A move that gives a kind is a pull that gives a token of that kind. -/
theorem Tokenizer.exists_pull {tokenizer rest : Tokenizer} {kind : TokenKind}
    (h : TokenSource.next tokenizer = (.ok (some kind), rest)) :
    ∃ token, tokenizer.pull = (.ok (some token), rest) ∧ token.kind = kind ∧
      TokenSource.current rest = some token := by
  have hnext : tokenizer.next = (.ok (some kind), rest) := h
  obtain ⟨token, hpull, hkind⟩ := next_eq_ok_some (congrArg Prod.fst hnext)
  have hrest : tokenizer.pull.2 = rest := congrArg Prod.snd hnext
  have hwhole : tokenizer.pull = (.ok (some token), rest) := Prod.ext hpull hrest
  exact ⟨token, hwhole, hkind, current_of_pull hwhole⟩

instance : LawfulTokenSource Tokenizer where
  current_next tokenizer := by
    show tokenizer.next.2.current.map Token.kind = tokenizer.next.1.toOption.join
    rw [Tokenizer.next_eq, Tokenizer.current_pull]
    cases tokenizer.pull.1 with
    | error error => rfl
    | ok found => rfl

instance : LawfulTokenSource Replay where
  current_next replay := by
    show replay.next.2.current.map Token.kind = replay.next.1.toOption.join
    unfold Replay.next
    split <;> rfl

/-- A source that stays at its end, once a move has found it. -/
class EndingTokenSource (σ : Type) [TokenSource σ] : Prop where
  next_of_end : ∀ source rest : σ, TokenSource.next source = (.ok none, rest) →
    TokenSource.next rest = (.ok none, rest)

theorem Tokenizer.pull_of_next_end {tokenizer rest : Tokenizer}
    (h : TokenSource.next tokenizer = (.ok none, rest)) : tokenizer.pull = (.ok none, rest) := by
  have hnext : tokenizer.next = (.ok none, rest) := h
  rw [next_eq] at hnext
  obtain ⟨hkind, hrest⟩ := Prod.mk.inj hnext
  refine Prod.ext ?_ hrest
  cases hanswer : tokenizer.pull.1 with
  | error error => simp [hanswer, Except.map] at hkind
  | ok found =>
      cases found with
      | none => rfl
      | some token => simp [hanswer, Except.map] at hkind

instance : EndingTokenSource Tokenizer where
  next_of_end tokenizer rest h := by
    obtain ⟨blanks, -, -, -, hrest⟩ :=
      Tokenizer.pull_eq_end_iff.mp (Tokenizer.pull_of_next_end h)
    -- Nothing is left of the feed and nothing is open, so the next pull finds the end as well.
    have hagain : rest.pull = (.ok none, rest) := by
      rw [Tokenizer.pull_eq_end_iff, hrest]
      exact ⟨[], rfl, blanks_nil, rfl, rfl⟩
    show rest.next = (.ok none, rest)
    rw [Tokenizer.next_eq, hagain]
    rfl

instance : EndingTokenSource Replay where
  next_of_end replay rest h := by
    have hnext : replay.next = (.ok none, rest) := h
    unfold Replay.next at hnext
    split at hnext
    · obtain rfl := congrArg Prod.snd hnext
      rfl
    · simp at hnext

namespace TokenSource

variable {σ : Type} [TokenSource σ]

/-- Induction along the moves of a source: the next one fails, or it finds the end, or it gives
a token. -/
theorem induction {motive : σ → Prop}
    (fails : ∀ source error rest, next source = (.error error, rest) → motive source)
    (ends : ∀ source rest, next source = (.ok none, rest) → motive source)
    (gives : ∀ source kind rest, next source = (.ok (some kind), rest) → motive rest →
      motive source) (source : σ) : motive source := by
  match hnext : next source with
  | (.error error, rest) => exact fails source error rest hnext
  | (.ok none, rest) => exact ends source rest hnext
  | (.ok (some kind), rest) =>
      have : unread rest < unread source := by
        have hlt := unread_next_lt source kind (by rw [hnext])
        rwa [hnext] at hlt
      exact gives source kind rest hnext (induction fails ends gives rest)
termination_by unread source

/-- The tokens that the first moves give. -/
def firstTokens (source : σ) : Nat → List Token
  | 0 => []
  | n + 1 => (current (next source).2).toList ++ firstTokens (next source).2 n

/-- A move that gives a token has it for the current one. -/
theorem exists_current [LawfulTokenSource σ] {source rest : σ} {kind : TokenKind}
    (h : next source = (.ok (some kind), rest)) :
    ∃ token, current rest = some token ∧ token.kind = kind := by
  have hlaw := LawfulTokenSource.current_next source
  rw [h] at hlaw
  exact Option.map_eq_some_iff.mp hlaw

theorem current_of_no_token [LawfulTokenSource σ] {source rest : σ}
    {answer : Except StreamError (Option TokenKind)} (h : next source = (answer, rest))
    (hanswer : answer.toOption.join = none) : current rest = none := by
  have hlaw := LawfulTokenSource.current_next source
  rw [h, hanswer] at hlaw
  exact Option.map_eq_none_iff.mp hlaw

/-- A source at its end gives no token any more. -/
theorem firstTokens_of_end [LawfulTokenSource σ] {source : σ}
    (h : next source = (.ok none, source)) (n : Nat) : firstTokens source n = [] := by
  have hcurrent : current source = none := current_of_no_token h rfl
  induction n with
  | zero => rfl
  | succ n ih => rw [firstTokens, h, hcurrent, ih, Option.toList_none, List.nil_append]

end TokenSource
end RequiredKeys
