import RequiredKeys.Proofs.Requirement.Verdict

/-!
# Stopping early

A run may stop as soon as nothing is outstanding, or it may go on to the end of its source.
Both runs do the same as long as something is outstanding, so they part at one place or
nowhere (`Progress.settles_or_agree`):

* `Progress.Settles` leads to the place where they part.  The run that may stop ends there, and
  the other one goes on (`Settles.run_early`, `Settles.run_full`); from there on it may fail, but
  what is outstanding stays nothing.
* Where nothing stops the first run, the two are the same run.

The place is the first one where nothing is outstanding, which `Settles.count` says in terms of
the tokens of the source.  `Outstanding.earlyStop_run` puts this together, for every source.
-/

namespace RequiredKeys

variable {σ : Type} [TokenSource σ]

/-- What is outstanding behind the first tokens of a source, of which the scope admits some. -/
def Outstanding.afterFirst (outstanding : Outstanding) (scope : MatchScope) (source : σ)
    (n : Nat) : Outstanding :=
  outstanding.observeAll ((TokenSource.firstTokens source n).filter scope.admits)

namespace Progress

/-- `Settles scope progress source last final`: tokens are pulled as long as something is
outstanding, and so the run comes to `last` in front of `final`, where nothing is. -/
inductive Settles (scope : MatchScope) : Progress → σ → Progress → σ → Prop
  | here {progress : Progress} {source : σ} (h : progress.outstanding.isSatisfied = true) :
      Settles scope progress source progress source
  | behind {progress last : Progress} {source rest final : σ} {kind : TokenKind}
      (h : progress.outstanding.isSatisfied = false)
      (hnext : TokenSource.next source = (.ok (some kind), rest))
      (hrest : Settles scope (progress.advance scope (TokenSource.current rest)) rest last final) :
      Settles scope progress source last final

variable {scope : MatchScope} {progress last : Progress} {source final : σ}

/-- One pull more is one token more of the source. -/
theorem outstanding_afterFirst_advance (progress : Progress) (scope : MatchScope) (source : σ)
    (n : Nat) :
    (progress.advance scope (TokenSource.current (TokenSource.next source).2)).outstanding.afterFirst
        scope (TokenSource.next source).2 n =
      progress.outstanding.afterFirst scope source (n + 1) := by
  unfold Outstanding.afterFirst
  rw [TokenSource.firstTokens]
  cases TokenSource.current (TokenSource.next source).2 with
  | none => rfl
  | some token => rw [observeAll_advance, Option.toList_some, List.singleton_append]

theorem tokens_advance (progress : Progress) (scope : MatchScope) (current : Option Token) :
    (progress.advance scope current).tokens = progress.tokens + 1 := by
  cases current with
  | none => rfl
  | some token =>
      unfold advance offer
      dsimp only
      split
      · split <;> rfl
      · rfl

namespace Settles

theorem isSatisfied (h : Settles scope progress source last final) :
    last.outstanding.isSatisfied = true := by
  induction h with
  | here h => exact h
  | behind _ _ _ ih => exact ih

/-- The run that may stop ends where the two part. -/
theorem run_early (h : Settles scope progress source last final) :
    progress.run ⟨scope, true⟩ source = last.conclude final false := by
  induction h with
  | here h => exact run_of_stop (by rw [h]; rfl)
  | behind h hnext _ ih =>
      rw [run_of_token (by rw [h]; rfl) hnext]
      exact ih

/-- The other run comes to that place and goes on. -/
theorem run_full (h : Settles scope progress source last final) :
    progress.run ⟨scope, false⟩ source = last.run ⟨scope, false⟩ final := by
  induction h with
  | here => rfl
  | behind _ hnext _ ih =>
      rw [run_of_token rfl hnext]
      exact ih

/-- **The two runs part behind the first tokens that leave nothing outstanding.** -/
theorem count [LawfulTokenSource σ] (h : Settles scope progress source last final) :
    ∃ n, last.tokens = progress.tokens + n ∧
      (TokenSource.firstTokens source n).length = n ∧
      (progress.outstanding.afterFirst scope source n).isSatisfied = true ∧
      ∀ m < n, (progress.outstanding.afterFirst scope source m).isSatisfied = false := by
  induction h with
  | here h => exact ⟨0, rfl, rfl, h, by omega⟩
  | @behind progress last source rest final kind h hnext hrest ih =>
      obtain ⟨n, htokens, hlength, hsatisfied, hleast⟩ := ih
      obtain ⟨token, hcurrent, -⟩ := TokenSource.exists_current hnext
      obtain rfl : (TokenSource.next source).2 = rest := by rw [hnext]
      rw [outstanding_afterFirst_advance] at hsatisfied
      refine ⟨n + 1, ?_, ?_, hsatisfied, ?_⟩
      · rw [htokens, tokens_advance]
        omega
      · rw [TokenSource.firstTokens, List.length_append, hlength, hcurrent]
        show 1 + n = n + 1
        omega
      · intro m hm
        cases m with
        | zero => exact h
        | succ m =>
            rw [← outstanding_afterFirst_advance]
            exact hleast m (by omega)

end Settles

/-- Where nothing is outstanding a token takes nothing away. -/
theorem outstanding_advance_of_isSatisfied (h : progress.outstanding.isSatisfied = true)
    (scope : MatchScope) (current : Option Token) :
    (progress.advance scope current).outstanding = progress.outstanding := by
  cases current with
  | none => rfl
  | some token =>
      rw [outstanding_advance]
      split
      · exact Outstanding.observeAll_of_isSatisfied h [token]
      · rfl

/-- Where nothing is outstanding a run that goes on finds nothing out, it only counts. -/
theorem run_full_of_isSatisfied {outcome : RunOutcome}
    (h : progress.outstanding.isSatisfied = true)
    (hrun : (progress.run ⟨scope, false⟩ source).result = .ok outcome) :
    outcome.outstanding = progress.outstanding ∧ progress.tokens ≤ outcome.tokens := by
  induction source using TokenSource.induction generalizing progress with
  | fails source error rest hnext =>
      rw [run_of_error rfl hnext] at hrun
      simp at hrun
  | ends source rest hnext =>
      rw [run_of_end rfl hnext] at hrun
      obtain rfl := Except.ok.inj hrun
      exact ⟨rfl, Nat.le_refl _⟩
  | gives source kind rest hnext ih =>
      rw [run_of_token rfl hnext] at hrun
      have hkept := outstanding_advance_of_isSatisfied h scope (TokenSource.current rest)
      obtain ⟨houtstanding, htokens⟩ := ih (by rw [hkept]; exact h) hrun
      rw [tokens_advance] at htokens
      exact ⟨houtstanding.trans hkept, by omega⟩

/-- **Both runs come to a place where nothing is outstanding, or they are the same run**, and
that leaves something outstanding if it succeeds. -/
theorem settles_or_agree (scope : MatchScope) (progress : Progress) (source : σ) :
    (∃ last final, Settles scope progress source last final) ∨
      (progress.run ⟨scope, true⟩ source = progress.run ⟨scope, false⟩ source ∧
        ∀ outcome, (progress.run ⟨scope, true⟩ source).result = .ok outcome →
          outcome.outstanding.isSatisfied = false) := by
  induction source using TokenSource.induction generalizing progress with
  | fails source error rest hnext =>
      cases h : progress.outstanding.isSatisfied with
      | true => exact .inl ⟨progress, source, .here h⟩
      | false =>
          have hgoes : (true && progress.outstanding.isSatisfied) = false := h
          rw [run_of_error hgoes hnext, run_of_error rfl hnext]
          exact .inr ⟨rfl, by simp⟩
  | ends source rest hnext =>
      cases h : progress.outstanding.isSatisfied with
      | true => exact .inl ⟨progress, source, .here h⟩
      | false =>
          have hgoes : (true && progress.outstanding.isSatisfied) = false := h
          rw [run_of_end hgoes hnext, run_of_end rfl hnext]
          refine .inr ⟨rfl, ?_⟩
          intro outcome hrun
          obtain rfl := Except.ok.inj hrun
          exact h
  | gives source kind rest hnext ih =>
      cases h : progress.outstanding.isSatisfied with
      | true => exact .inl ⟨progress, source, .here h⟩
      | false =>
          -- Something is outstanding, so both runs pull the token and go on behind it.
          have hgoes : (true && progress.outstanding.isSatisfied) = false := h
          rw [run_of_token hgoes hnext, run_of_token rfl hnext]
          obtain ⟨last, final, hsettles⟩ | hagree :=
            ih (progress.advance scope (TokenSource.current rest))
          · exact .inl ⟨last, final, .behind h hnext hsettles⟩
          · exact .inr hagree

end Progress

/-- How the result `early` of a run that may stop and the result `full` of one that may not
belong together, when both begin with `outstanding` over `source`. -/
structure EarlyStop (scope : MatchScope) (outstanding : Outstanding) (source : σ)
    (early full : Except StreamError RunOutcome) : Prop where
  /-- Where the full run succeeds the early one finds out the same, from no more tokens. -/
  of_full_ok : ∀ outcome, full = .ok outcome → ∃ sooner, early = .ok sooner ∧
    sooner.outstanding = outcome.outstanding ∧ sooner.tokens ≤ outcome.tokens
  of_early_error : ∀ error, early = .error error → full = .error error
  of_unsatisfied : ∀ outcome, early = .ok outcome → outcome.outstanding.isSatisfied = false →
    full = .ok outcome
  /-- An error of the full run is one of the early run, or it comes too late for that. -/
  of_full_error : ∀ error, full = .error error → early = .error error ∨
    ∃ outcome, early = .ok outcome ∧ outcome.outstanding.isSatisfied = true
  /-- A run that has stopped has pulled as many tokens as it takes, and no more. -/
  tokens_least : ∀ outcome, early = .ok outcome → outcome.outstanding.isSatisfied = true →
    outcome.reachedEnd = false →
      (TokenSource.firstTokens source outcome.tokens).length = outcome.tokens ∧
      (outstanding.afterFirst scope source outcome.tokens).isSatisfied = true ∧
      ∀ n < outcome.tokens, (outstanding.afterFirst scope source n).isSatisfied = false

namespace Outstanding

variable {scope : MatchScope} {outstanding : Outstanding} {source : σ}

theorem earlyStop_of_settles [LawfulTokenSource σ] {last : Progress} {final : σ}
    (h : Progress.Settles scope { outstanding := outstanding } source last final) :
    EarlyStop scope outstanding source (outstanding.run ⟨scope, true⟩ source).result
      (outstanding.run ⟨scope, false⟩ source).result := by
  have hearly : (outstanding.run ⟨scope, true⟩ source).result =
      .ok ⟨last.outstanding, last.tokens, false⟩ := congrArg Run.result h.run_early
  have hfull : (outstanding.run ⟨scope, false⟩ source).result =
      (last.run ⟨scope, false⟩ final).result := congrArg Run.result h.run_full
  rw [hearly, hfull]
  constructor
  case of_full_ok =>
    intro outcome hrun
    obtain ⟨houtstanding, htokens⟩ := Progress.run_full_of_isSatisfied h.isSatisfied hrun
    exact ⟨_, rfl, houtstanding.symm, htokens⟩
  case of_early_error =>
    intro error herror
    simp at herror
  case of_unsatisfied =>
    intro outcome houtcome hunsatisfied
    obtain rfl := Except.ok.inj houtcome
    simp [h.isSatisfied] at hunsatisfied
  case of_full_error =>
    intro error _
    exact .inr ⟨_, rfl, h.isSatisfied⟩
  case tokens_least =>
    intro outcome houtcome _ _
    obtain rfl := Except.ok.inj houtcome
    obtain ⟨n, htokens, hcount⟩ := h.count
    obtain rfl : last.tokens = n := by simpa using htokens
    exact hcount

theorem earlyStop_of_agree {result : Except StreamError RunOutcome}
    (h : ∀ outcome, result = .ok outcome → outcome.outstanding.isSatisfied = false) :
    EarlyStop scope outstanding source result result where
  of_full_ok := fun outcome hrun => ⟨outcome, hrun, rfl, Nat.le_refl _⟩
  of_early_error := fun _ herror => herror
  of_unsatisfied := fun _ hrun _ => hrun
  of_full_error := fun _ herror => .inl herror
  tokens_least := by
    intro outcome hrun hsatisfied
    rw [h outcome hrun] at hsatisfied
    contradiction

/-- **Stopping early agrees with reading everything**, for everything that may be outstanding
at the start, every scope and every source, whether it fails or not. -/
theorem earlyStop_run [LawfulTokenSource σ] (outstanding : Outstanding) (scope : MatchScope)
    (source : σ) :
    EarlyStop scope outstanding source (outstanding.run ⟨scope, true⟩ source).result
      (outstanding.run ⟨scope, false⟩ source).result := by
  obtain ⟨last, final, hsettles⟩ | ⟨hagree, hunsatisfied⟩ :=
    Progress.settles_or_agree scope { outstanding := outstanding } source
  · exact earlyStop_of_settles hsettles
  · show EarlyStop scope outstanding source (Progress.run ⟨scope, true⟩ _ source).result
      (Progress.run ⟨scope, false⟩ _ source).result
    rw [← hagree]
    exact earlyStop_of_agree hunsatisfied

/-- In `{"a"]` the bracket is wrong, which only the run that reads everything finds out. -/
theorem earlyStop_run_wrongBracket :
    EarlyStop .anywhere ⟨["a"]⟩ (Tokenizer.ofBytes [0x7b, 0x22, 0x61, 0x22, 0x5d])
      (.ok ⟨⟨[]⟩, 2, false⟩)
      (.error (.malformed ⟨1, 5⟩ (.unexpected 0x5d (.expected .colon)))) := by
  have hopening : TokenSource.next (Tokenizer.ofBytes [0x7b, 0x22, 0x61, 0x22, 0x5d]) =
      (.ok (some (.startOf .object)), ⟨⟨Feed.ofBytes [0x22, 0x61, 0x22, 0x5d], ⟨1, 2⟩⟩,
        [⟨.object, .keyOrEnd⟩], false, some ⟨.startOf .object, none, 0⟩⟩) := by
    rfl
  have hkey (current : Option Token) : TokenSource.next
      (⟨⟨Feed.ofBytes [0x22, 0x61, 0x22, 0x5d], ⟨1, 2⟩⟩, [⟨.object, .keyOrEnd⟩], false, current⟩ :
        Tokenizer) =
        (.ok (some .fieldName), ⟨⟨Feed.ofBytes [0x5d], ⟨1, 5⟩⟩, [⟨.object, .colon⟩], false,
          some ⟨.fieldName, some "a", 1⟩⟩) := by
    rfl
  have hwrong (current : Option Token) : TokenSource.next
      (⟨⟨Feed.ofBytes [0x5d], ⟨1, 5⟩⟩, [⟨.object, .colon⟩], false, current⟩ : Tokenizer) =
        (.error (.malformed ⟨1, 5⟩ (.unexpected 0x5d (.expected .colon))),
          ⟨⟨Feed.ofBytes [0x5d], ⟨1, 5⟩⟩, [⟨.object, .colon⟩], false, none⟩) := by
    rfl
  have hearly : (run ⟨["a"]⟩ ⟨.anywhere, true⟩
      (Tokenizer.ofBytes [0x7b, 0x22, 0x61, 0x22, 0x5d])).result = .ok ⟨⟨[]⟩, 2, false⟩ := by
    unfold run
    rw [Progress.run_of_token rfl hopening, Progress.run_of_token rfl (hkey _),
      Progress.run_of_stop rfl]
    rfl
  have hfull : (run ⟨["a"]⟩ ⟨.anywhere, false⟩
      (Tokenizer.ofBytes [0x7b, 0x22, 0x61, 0x22, 0x5d])).result =
        .error (.malformed ⟨1, 5⟩ (.unexpected 0x5d (.expected .colon))) := by
    unfold run
    rw [Progress.run_of_token rfl hopening, Progress.run_of_token rfl (hkey _),
      Progress.run_of_error rfl (hwrong _)]
  have hagrees := earlyStop_run ⟨["a"]⟩ .anywhere
    (Tokenizer.ofBytes [0x7b, 0x22, 0x61, 0x22, 0x5d])
  rwa [hearly, hfull] at hagrees

end Outstanding
end RequiredKeys
