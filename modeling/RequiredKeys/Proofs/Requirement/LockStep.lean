import RequiredKeys.Proofs.Requirement.Account

/-!
# Runs in step with their source

A run learns from a move that there is a token, and takes the token itself from the source.  Were
the source to show none then, the run would count a token that it does not offer, and were it to
show an earlier one, the run would offer that one twice.

* `TokenSource.InStep` compares what a source shows with its last answer.
  `TokenSource.inStep_afterMoves` says that the two agree behind any number of moves, also where
  some of them fail.
* `Progress.Offers` unrolls the loop of a run and has no case in which a token is missing.
  `Progress.exists_offers` says that every run is like that, and the lemmas behind it what comes of
  the tokens that are offered.
* `Token.Shaped` is what the kind of a token tells of its text and its depth, for every token that
  a tokenizer gives.

`TokenSource.keepsStep` puts this together for the tokenizer and for a list that is played back.
-/

namespace RequiredKeys

open Ascii

/-! ## What a source shows -/

namespace TokenSource

variable {σ : Type} [TokenSource σ]

/-- The answer of the last of some moves, if there is one, and the source behind them.  A move
behind a failure is a move like any other. -/
def afterMoves (source : σ) : Nat → Option (Except StreamError (Option TokenKind)) × σ
  | 0 => (none, source)
  | n + 1 =>
    let (answer, rest) := next (afterMoves source n).2
    (some answer, rest)

theorem afterMoves_succ (source : σ) (n : Nat) :
    (afterMoves source (n + 1)).2 = (next (afterMoves source n).2).2 := rfl

theorem afterMoves_add (source : σ) (m n : Nat) :
    (afterMoves source (m + n)).2 = (afterMoves (afterMoves source m).2 n).2 := by
  induction n with
  | zero => rfl
  | succ n ih => rw [← Nat.add_assoc, afterMoves_succ, afterMoves_succ, ih]

/-- `InStep last source`: the source shows a token of the kind that it has answered last, and no
token if it has answered no kind. -/
structure InStep (last : Option (Except StreamError (Option TokenKind))) (source : σ) : Prop where
  fresh : last = none → current source = none
  gives : ∀ kind, last = some (.ok (some kind)) →
    ∃ token, current source = some token ∧ token.kind = kind
  ends : last = some (.ok none) → current source = none
  fails : ∀ error, last = some (.error error) → current source = none

/-- **One move puts a source in step**, whatever it has shown before. -/
theorem inStep_next [LawfulTokenSource σ] (source : σ) :
    InStep (some (next source).1) (next source).2 where
  fresh h := by simp at h
  gives kind h := exists_current (Prod.ext (Option.some.inj h) rfl)
  ends h := current_of_no_token (Prod.ext (Option.some.inj h) rfl) rfl
  fails error h := current_of_no_token (Prod.ext (Option.some.inj h) rfl) rfl

/-- **A source stays in step** with its answers, however often it is moved. -/
theorem inStep_afterMoves [LawfulTokenSource σ] {source : σ} (h : current source = none)
    (moves : Nat) : InStep (afterMoves source moves).1 (afterMoves source moves).2 := by
  cases moves with
  | zero => exact ⟨fun _ => h, by simp [afterMoves], fun _ => h, fun _ _ => h⟩
  | succ n => exact inStep_next _

/-- A read that fails behind a bracket leaves nothing to be shown, and not the bracket either. -/
example : (afterMoves (Tokenizer.ofFeed [.byte openBracket, .failure "timed out"]) 1).2.current =
      some ⟨.startOf .array, none, 0⟩ ∧
    (afterMoves (Tokenizer.ofFeed [.byte openBracket, .failure "timed out"]) 2).1 =
      some (.error (.unreadable "timed out")) ∧
    (afterMoves (Tokenizer.ofFeed [.byte openBracket, .failure "timed out"]) 2).2.current = none :=
  ⟨rfl, rfl, rfl⟩

end TokenSource

/-! ## What a run offers -/

namespace Progress

variable {σ : Type} [TokenSource σ]

/-- `Offers options progress source tokens run`: from `progress` the run over `source` counts the
tokens, one after the other, and offers each of them. -/
inductive Offers (options : RunOptions) : Progress → σ → List Token → Run σ → Prop
  | stops {progress : Progress} {source : σ}
      (hstop : (options.stopWhenSatisfied && progress.outstanding.isSatisfied) = true) :
      Offers options progress source [] (progress.conclude source false)
  | fails {progress : Progress} {source rest : σ} {error : StreamError}
      (hgoes : (options.stopWhenSatisfied && progress.outstanding.isSatisfied) = false)
      (hnext : TokenSource.next source = (.error error, rest)) :
      Offers options progress source [] ⟨.error error, rest, progress.events.toList⟩
  | ends {progress : Progress} {source rest : σ}
      (hgoes : (options.stopWhenSatisfied && progress.outstanding.isSatisfied) = false)
      (hnext : TokenSource.next source = (.ok none, rest)) :
      Offers options progress source [] (progress.conclude rest true)
  | gives {progress : Progress} {source rest : σ} {token : Token} {tokens : List Token}
      {run : Run σ}
      (hgoes : (options.stopWhenSatisfied && progress.outstanding.isSatisfied) = false)
      (hnext : TokenSource.next source = (.ok (some token.kind), rest))
      (hcurrent : TokenSource.current rest = some token)
      (h : Offers options
        (offer { progress with tokens := progress.tokens + 1 } options.scope token) rest tokens
        run) :
      Offers options progress source (token :: tokens) run

/-- **Every run offers each token that it counts.**  No token is missing where a move has told of
one. -/
theorem exists_offers [LawfulTokenSource σ] (options : RunOptions) (progress : Progress)
    (source : σ) :
    ∃ tokens, Offers options progress source tokens (progress.run options source) := by
  induction progress, source using @run_induction σ _ options with
  | stops progress source hstop =>
      rw [run_of_stop hstop]
      exact ⟨[], .stops hstop⟩
  | fails progress source error rest hgoes hnext =>
      rw [run_of_error hgoes hnext]
      exact ⟨[], .fails hgoes hnext⟩
  | ends progress source rest hgoes hnext =>
      rw [run_of_end hgoes hnext]
      exact ⟨[], .ends hgoes hnext⟩
  | gives progress source kind rest hgoes hnext ih =>
      obtain ⟨token, hcurrent, rfl⟩ := TokenSource.exists_current hnext
      rw [hcurrent] at ih
      obtain ⟨tokens, hoffers⟩ := ih
      rw [run_of_token hgoes hnext, hcurrent]
      exact ⟨token :: tokens, .gives hgoes hnext hcurrent hoffers⟩

/-- A token that is offered is told, and no other token with it. -/
theorem filterMap_token?_offer (progress : Progress) (scope : MatchScope) (token : Token) :
    (progress.offer scope token).events.toList.filterMap RunEvent.token? =
      progress.events.toList.filterMap RunEvent.token? ++ [(token.kind, token.depth)] := by
  cases htaken : progress.outstanding.taken? scope token with
  | some name =>
      rw [offer_of_taken htaken]
      simp [RunEvent.token?]
  | none =>
      rw [offer_of_not_taken htaken]
      simp [RunEvent.token?]

namespace Offers

variable {options : RunOptions} {progress : Progress} {source : σ} {tokens : List Token}
  {run : Run σ} {outcome : RunOutcome}

/-- The tokens are the ones that as many moves give. -/
theorem eq_firstTokens (h : Offers options progress source tokens run) :
    tokens = TokenSource.firstTokens source tokens.length := by
  induction h with
  | stops _ => rfl
  | fails _ _ => rfl
  | ends _ _ => rfl
  | gives _ hnext hcurrent _ ih =>
      rw [List.length_cons, TokenSource.firstTokens, hnext, hcurrent, ← ih]
      rfl

/-- The count is the one of the tokens that are offered. -/
theorem tokens_eq (h : Offers options progress source tokens run)
    (hresult : run.result = .ok outcome) : outcome.tokens = progress.tokens + tokens.length := by
  induction h with
  | stops _ => rw [← Except.ok.inj hresult, List.length_nil, Nat.add_zero]
  | fails _ _ => simp at hresult
  | ends _ _ => rw [← Except.ok.inj hresult, List.length_nil, Nat.add_zero]
  | @gives progress _ _ token tokens _ _ _ _ _ ih =>
      have hcount : (offer { progress with tokens := progress.tokens + 1 } options.scope
          token).tokens = progress.tokens + 1 := tokens_advance progress options.scope (some token)
      rw [ih hresult, hcount, List.length_cons]
      omega

/-- What is left is what the admitted ones of the tokens leave. -/
theorem outstanding_eq (h : Offers options progress source tokens run)
    (hresult : run.result = .ok outcome) :
    outcome.outstanding =
      progress.outstanding.observeAll (tokens.filter options.scope.admits) := by
  induction h with
  | stops _ => rw [← Except.ok.inj hresult, List.filter_nil, Outstanding.observeAll_nil]
  | fails _ _ => simp at hresult
  | ends _ _ => rw [← Except.ok.inj hresult, List.filter_nil, Outstanding.observeAll_nil]
  | @gives progress _ _ token tokens _ _ _ _ _ ih =>
      exact (ih hresult).trans (observeAll_advance progress options.scope token tokens)

/-- Every token that is offered is told, also by a run that fails behind it. -/
theorem told (h : Offers options progress source tokens run) :
    run.events.filterMap RunEvent.token? = progress.events.toList.filterMap RunEvent.token? ++
      tokens.map (fun token => (token.kind, token.depth)) := by
  induction h with
  | stops _ => simp [conclude, RunEvent.token?]
  | fails _ _ => simp
  | ends _ _ => simp [conclude, RunEvent.token?]
  | gives _ _ _ _ ih =>
      rw [ih, filterMap_token?_offer, List.append_assoc, List.map_cons, List.singleton_append]

/-- The run leaves its source as some moves do. -/
theorem exists_afterMoves (h : Offers options progress source tokens run) :
    ∃ moves, run.source = (TokenSource.afterMoves source moves).2 := by
  induction h with
  | stops _ => exact ⟨0, rfl⟩
  | fails _ hnext => exact ⟨1, (congrArg Prod.snd hnext).symm⟩
  | ends _ hnext => exact ⟨1, (congrArg Prod.snd hnext).symm⟩
  | @gives _ source rest _ _ _ _ hnext _ _ ih =>
      obtain ⟨moves, hmoves⟩ := ih
      have hrest : (TokenSource.afterMoves source 1).2 = rest := congrArg Prod.snd hnext
      exact ⟨1 + moves, by rw [hmoves, TokenSource.afterMoves_add, hrest]⟩

end Offers
end Progress

/-- A run over a source, and the tokens that it counts. -/
structure Outstanding.OffersAll {σ : Type} [TokenSource σ] (outstanding : Outstanding)
    (options : RunOptions) (source : σ) (tokens : List Token) : Prop where
  offers : Progress.Offers options { outstanding := outstanding } source tokens
    (outstanding.run options source)
  /-- They are the tokens of the source, in order. -/
  first : tokens = TokenSource.firstTokens source tokens.length
  count : ∀ outcome, (outstanding.run options source).result = .ok outcome →
    outcome.tokens = tokens.length
  /-- None of those that the scope admits is left out, and none comes twice. -/
  folded : ∀ outcome, (outstanding.run options source).result = .ok outcome →
    outcome.outstanding = outstanding.observeAll (tokens.filter options.scope.admits)
  told : (outstanding.run options source).events.filterMap RunEvent.token? =
    tokens.map (fun token => (token.kind, token.depth))

theorem Progress.Offers.offersAll {σ : Type} [TokenSource σ] {outstanding : Outstanding}
    {options : RunOptions} {source : σ} {tokens : List Token}
    (h : Offers options { outstanding := outstanding } source tokens
      (outstanding.run options source)) : outstanding.OffersAll options source tokens where
  offers := h
  first := h.eq_firstTokens
  count _ hresult := by rw [h.tokens_eq hresult, Nat.zero_add]
  folded _ hresult := h.outstanding_eq hresult
  told := by rw [h.told]; rfl

/-! ## What a token looks like -/

/-- What the kind of a token tells of its text and its depth. -/
structure Token.Shaped (token : Token) : Prop where
  text : token.text.isSome = true ↔
    token.kind = .fieldName ∨ token.kind = .string ∨ token.kind = .number
  depth : token.kind = .fieldName → 1 ≤ token.depth
  number : token.kind = .number → ∃ text, token.text = some text ∧ NumberText text.toUTF8.toList

/-- The token of a scalar has the text of the scalar, if that has one. -/
theorem ValueText.shaped {lexeme : List UInt8} {json : Json} {depth : Nat} {token : Token}
    (h : ValueText lexeme json) (hscalar : json.isScalar = true)
    (htoken : json.tokens depth = [token]) : token.Shaped := by
  cases h with
  | null =>
      obtain rfl := List.singleton_inj.mp htoken
      exact ⟨by simp, by simp, by simp⟩
  | bool value =>
      obtain rfl := List.singleton_inj.mp htoken
      exact ⟨by simp, by simp, by simp⟩
  | number hnumber =>
      obtain rfl := List.singleton_inj.mp htoken
      refine ⟨by simp, by simp, fun _ => ⟨_, rfl, ?_⟩⟩
      rwa [toList_toUTF8, encoded_asciiText hnumber]
  | string _ =>
      obtain rfl := List.singleton_inj.mp htoken
      exact ⟨by simp, by simp, by simp⟩
  | emptyArray _ => simp [Json.isScalar] at hscalar
  | array _ => simp [Json.isScalar] at hscalar
  | emptyObject _ => simp [Json.isScalar] at hscalar
  | object _ => simp [Json.isScalar] at hscalar

theorem Nesting.Reads.shaped {inner after : Nesting} {lexeme : List UInt8} {token : Token}
    (h : inner.Reads lexeme token after) : token.Shaped := by
  cases h with
  | exit _ => exact ⟨by simp, by simp, by simp⟩
  | key _ _ => exact ⟨by simp, by simp, by simp⟩
  | enter _ => exact ⟨by simp, by simp, by simp⟩
  | scalar _ hvalue hscalar htoken => exact hvalue.shaped hscalar htoken

/-- **Every token of a tokenizer has its shape**, in whatever state the tokenizer is pulled. -/
theorem Tokenizer.shaped_of_pull {tokenizer : Tokenizer} {token : Token}
    (h : tokenizer.pull.2.current = some token) : token.Shaped := by
  rw [current_pull] at h
  have hpull : tokenizer.pull = (.ok (some token), tokenizer.pull.2) := by
    refine Prod.ext ?_ rfl
    cases hanswer : tokenizer.pull.1 with
    | error error => simp [hanswer, Except.toOption] at h
    | ok found =>
        rw [hanswer] at h
        exact congrArg Except.ok h
  obtain ⟨gap, lexeme, rest, inner, after, -, -, hreads, -, -, -⟩ := pull_eq_token_iff.mp hpull
  exact hreads.shaped

/-! ## Both sources -/

namespace TokenSource

/-- What a source shows, and what runs do with it, behind any number of moves. -/
structure KeepsStep {σ : Type} [TokenSource σ] (start : σ) : Prop where
  inStep : ∀ moves, InStep (afterMoves start moves).1 (afterMoves start moves).2
  offered : ∀ moves (outstanding : Outstanding) (options : RunOptions), ∃ tokens,
    outstanding.OffersAll options (afterMoves start moves).2 tokens
  /-- Behind a run the source goes on as behind moves. -/
  left : ∀ moves (outstanding : Outstanding) (options : RunOptions), ∃ more,
    (outstanding.run options (afterMoves start moves).2).source =
      (afterMoves start (moves + more)).2

theorem keepsStep_of_current {σ : Type} [TokenSource σ] [LawfulTokenSource σ] {start : σ}
    (h : current start = none) : KeepsStep start where
  inStep := inStep_afterMoves h
  offered moves outstanding options := by
    obtain ⟨tokens, hoffers⟩ := Progress.exists_offers options { outstanding := outstanding }
      (afterMoves start moves).2
    exact ⟨tokens, hoffers.offersAll⟩
  left moves outstanding options := by
    obtain ⟨tokens, hoffers⟩ := Progress.exists_offers options { outstanding := outstanding }
      (afterMoves start moves).2
    obtain ⟨more, hmore⟩ := hoffers.exists_afterMoves
    exact ⟨more, hmore.trans (by rw [afterMoves_add])⟩

/-- **Both sources keep in step with their answers**, over any input with any failures in it and
over any tokens, so that runs offer what they count.  The tokens that a tokenizer shows all have
their shape. -/
theorem keepsStep (feed : Feed) (tokens : List Token) :
    KeepsStep (Tokenizer.ofFeed feed) ∧ KeepsStep (Replay.mk tokens none) ∧
      ∀ moves token, current (afterMoves (Tokenizer.ofFeed feed) moves).2 = some token →
        token.Shaped := by
  refine ⟨keepsStep_of_current rfl, keepsStep_of_current rfl, ?_⟩
  intro moves token hcurrent
  cases moves with
  | zero =>
      -- Nothing is shown before the first move.
      exact absurd hcurrent (Option.some_ne_none token).symm
  | succ n => exact Tokenizer.shaped_of_pull hcurrent

/-- In `[-0]` a read fails behind the bracket.  The move behind the failure shows the number. -/
theorem keepsStep_number :
    current (afterMoves (Tokenizer.ofFeed [.byte openBracket, .failure "timed out", .byte minus,
        .byte zero, .byte closeBracket]) 3).2 = some ⟨.number, some "-0", 1⟩ ∧
      Token.Shaped ⟨.number, some "-0", 1⟩ := by
  have hcurrent : current (afterMoves (Tokenizer.ofFeed [.byte openBracket, .failure "timed out",
      .byte minus, .byte zero, .byte closeBracket]) 3).2 = some ⟨.number, some "-0", 1⟩ := rfl
  obtain ⟨-, -, hshaped⟩ := keepsStep [.byte openBracket, .failure "timed out", .byte minus,
    .byte zero, .byte closeBracket] []
  exact ⟨hcurrent, hshaped 3 _ hcurrent⟩

end TokenSource
end RequiredKeys
