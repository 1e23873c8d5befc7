import RequiredKeys.Proofs.Requirement.EarlyStop

/-!
# Runs over one source

A run leaves its source where it stops, and whoever has the source can use it again: by another
run, or by moves of its own.  `runs_compose` says that nothing is lost or repeated at such a
place, for every source that stays at its end.

* `Resumes`: a run that may stop and one behind it that goes on make up a single run.  The two
  part where `Progress.Settles` leads to, or the first one has come to the end.
* `PullsInOrder`: any row of uses comes to the same as some number of moves in a row, as far as
  the first failure.  What it pulls is told by a `Recorder`, a source that writes down what it
  gives and otherwise does what the source inside does.
-/

namespace RequiredKeys

variable {σ : Type} [TokenSource σ]

/-! ## Going on behind a run -/

namespace Progress

variable {scope : MatchScope} {progress : Progress} {source : σ}

/-- Induction along a run: it stops, or the next move fails, finds the end or gives a token. -/
theorem run_induction (options : RunOptions) {motive : Progress → σ → Prop}
    (stops : ∀ progress source,
      (options.stopWhenSatisfied && progress.outstanding.isSatisfied) = true →
        motive progress source)
    (fails : ∀ progress source error rest,
      (options.stopWhenSatisfied && progress.outstanding.isSatisfied) = false →
        TokenSource.next source = (.error error, rest) → motive progress source)
    (ends : ∀ progress source rest,
      (options.stopWhenSatisfied && progress.outstanding.isSatisfied) = false →
        TokenSource.next source = (.ok none, rest) → motive progress source)
    (gives : ∀ progress source kind rest,
      (options.stopWhenSatisfied && progress.outstanding.isSatisfied) = false →
        TokenSource.next source = (.ok (some kind), rest) →
        motive (progress.advance options.scope (TokenSource.current rest)) rest →
        motive progress source)
    (progress : Progress) (source : σ) : motive progress source := by
  induction source using TokenSource.induction generalizing progress with
  | fails source error rest hnext =>
      cases hstop : options.stopWhenSatisfied && progress.outstanding.isSatisfied with
      | true => exact stops progress source hstop
      | false => exact fails progress source error rest hstop hnext
  | ends source rest hnext =>
      cases hstop : options.stopWhenSatisfied && progress.outstanding.isSatisfied with
      | true => exact stops progress source hstop
      | false => exact ends progress source rest hstop hnext
  | gives source kind rest hnext ih =>
      cases hstop : options.stopWhenSatisfied && progress.outstanding.isSatisfied with
      | true => exact stops progress source hstop
      | false => exact gives progress source kind rest hstop hnext (ih _)

theorem outstanding_advance_congr {other : Progress}
    (h : other.outstanding = progress.outstanding) (scope : MatchScope) (current : Option Token) :
    (other.advance scope current).outstanding = (progress.advance scope current).outstanding := by
  cases current with
  | none => exact h
  | some token => rw [outstanding_advance, outstanding_advance, h]

/-- Two runs with the same names outstanding differ by what has been counted before. -/
theorem run_of_counted (options : RunOptions) (counted : Nat) {progress other : Progress}
    (houtstanding : other.outstanding = progress.outstanding)
    (htokens : other.tokens = counted + progress.tokens) (source : σ) :
    (other.run options source).result = (progress.run options source).result.map
        (fun outcome => { outcome with tokens := counted + outcome.tokens }) ∧
      (other.run options source).source = (progress.run options source).source := by
  induction progress, source using @run_induction σ _ options generalizing other with
  | stops progress source hstop =>
      rw [run_of_stop hstop, run_of_stop (by rw [houtstanding, hstop])]
      simp [conclude, Except.map, houtstanding, htokens]
  | fails progress source error rest hgoes hnext =>
      rw [run_of_error hgoes hnext, run_of_error (by rw [houtstanding, hgoes]) hnext]
      exact ⟨rfl, rfl⟩
  | ends progress source rest hgoes hnext =>
      rw [run_of_end hgoes hnext, run_of_end (by rw [houtstanding, hgoes]) hnext]
      simp [conclude, Except.map, houtstanding, htokens]
  | gives progress source kind rest hgoes hnext ih =>
      rw [run_of_token hgoes hnext, run_of_token (by rw [houtstanding, hgoes]) hnext]
      apply ih (outstanding_advance_congr houtstanding options.scope _)
      rw [tokens_advance, tokens_advance, htokens, Nat.add_assoc]

/-- A run that never stops has come to the end, if it succeeds. -/
theorem next_of_run_full [EndingTokenSource σ] {outcome : RunOutcome}
    (hrun : (progress.run ⟨scope, false⟩ source).result = .ok outcome) :
    outcome.reachedEnd = true ∧
      TokenSource.next (progress.run ⟨scope, false⟩ source).source =
        (.ok none, (progress.run ⟨scope, false⟩ source).source) := by
  induction source using TokenSource.induction generalizing progress with
  | fails source error rest hnext =>
      rw [run_of_error rfl hnext] at hrun
      simp at hrun
  | ends source rest hnext =>
      rw [run_of_end rfl hnext] at hrun ⊢
      obtain rfl := Except.ok.inj hrun
      exact ⟨rfl, EndingTokenSource.next_of_end source rest hnext⟩
  | gives source kind rest hnext ih =>
      rw [run_of_token rfl hnext] at hrun ⊢
      exact ih hrun

end Progress

/-- How a run `late`, which goes on where another one has succeeded with `first`, and a single
run `full` over the same source belong together. -/
structure Resumes (first : RunOutcome) (late full : Run σ) : Prop where
  result : full.result =
    late.result.map (fun second => { second with tokens := first.tokens + second.tokens })
  source : full.source = late.source

namespace Outstanding

/-- **A run that may stop can be resumed**, and both together are a run that does not stop. -/
theorem resumes_run [EndingTokenSource σ] {outstanding : Outstanding} {scope : MatchScope}
    {source : σ} {first : RunOutcome}
    (hfirst : (outstanding.run ⟨scope, true⟩ source).result = .ok first) :
    Resumes first
      (first.outstanding.run ⟨scope, false⟩ (outstanding.run ⟨scope, true⟩ source).source)
      (outstanding.run ⟨scope, false⟩ source) := by
  unfold run at hfirst ⊢
  obtain ⟨last, final, hsettles⟩ | ⟨hagree, -⟩ :=
    Progress.settles_or_agree scope { outstanding := outstanding } source
  · rw [hsettles.run_early] at hfirst ⊢
    obtain rfl := Except.ok.inj hfirst
    rw [hsettles.run_full]
    have hbegins : last.outstanding = (Progress.mk last.outstanding 0 #[]).outstanding := rfl
    obtain ⟨hresult, hsource⟩ :=
      Progress.run_of_counted ⟨scope, false⟩ last.tokens hbegins rfl final
    exact ⟨hresult, hsource⟩
  · -- The first run has read everything, and there is nothing for the second one to do.
    rw [hagree] at hfirst ⊢
    obtain ⟨hend, hnext⟩ := Progress.next_of_run_full hfirst
    rw [Progress.run_of_end rfl hnext]
    refine ⟨?_, rfl⟩
    rw [hfirst]
    show _ = Except.ok (RunOutcome.mk first.outstanding first.tokens true)
    rw [← hend]

end Outstanding

/-! ## Uses of a source -/

/-- What has become of using a source: how many tokens that has pulled, unless it has failed,
and the source that it leaves. -/
@[ext]
structure Use (α : Type) where
  pulled : Except StreamError Nat
  source : α

namespace Use

variable {α : Type}

/-- Counts some tokens that have been pulled before. -/
def behind (use : Use α) (counted : Nat) : Use α :=
  ⟨use.pulled.map (counted + ·), use.source⟩

/-- Goes on behind a use that has not failed. -/
def andThen (use : Use α) (more : α → Use α) : Use α :=
  match use.pulled with
  | .error _ => use
  | .ok n => (more use.source).behind n

@[simp] theorem behind_zero (use : Use α) : use.behind 0 = use := by
  obtain ⟨pulled, source⟩ := use
  cases pulled with
  | error error => rfl
  | ok n => simp [behind, Except.map]

theorem behind_behind (use : Use α) (m n : Nat) : (use.behind m).behind n = use.behind (n + m) := by
  obtain ⟨pulled, source⟩ := use
  cases pulled with
  | error error => rfl
  | ok k => simp [behind, Except.map, Nat.add_assoc]

theorem exists_pulled_of_behind {use : Use α} {counted n : Nat}
    (h : (use.behind counted).pulled = .ok n) : ∃ m, use.pulled = .ok m ∧ counted + m = n := by
  obtain ⟨pulled, source⟩ := use
  cases pulled with
  | error error => simp [behind, Except.map] at h
  | ok m => exact ⟨m, rfl, Except.ok.inj h⟩

theorem andThen_congr {use : Use α} {more other : α → Use α}
    (h : more use.source = other use.source) : use.andThen more = use.andThen other := by
  unfold andThen
  rw [h]

theorem andThen_behind (use : Use α) (more : α → Use α) (n : Nat) :
    (use.behind n).andThen more = (use.andThen more).behind n := by
  obtain ⟨pulled, source⟩ := use
  cases pulled with
  | error error => rfl
  | ok k => exact (behind_behind (more source) k n).symm

theorem andThen_andThen (use : Use α) (more last : α → Use α) :
    (use.andThen more).andThen last = use.andThen (fun source => (more source).andThen last) := by
  obtain ⟨pulled, source⟩ := use
  cases pulled with
  | error error => rfl
  | ok n => exact andThen_behind (more source) last n

end Use

/-- One way to use a source that leaves it to whoever uses it next. -/
inductive Call
  | move
  | run (outstanding : Outstanding) (options : RunOptions)

namespace Call

def perform (call : Call) (source : σ) : Use σ :=
  match call with
  | move =>
      ⟨(TokenSource.next source).1.map (fun found => found.toList.length),
        (TokenSource.next source).2⟩
  | run outstanding options =>
      ⟨(outstanding.run options source).result.map RunOutcome.tokens,
        (outstanding.run options source).source⟩

/-- Performs one call after the other, as far as the first one that fails. -/
def performAll : List Call → σ → Use σ
  | [], source => ⟨.ok 0, source⟩
  | call :: calls, source => (call.perform source).andThen (performAll calls)

/-- Some moves in a row, as far as the first one that fails. -/
def moves (n : Nat) : σ → Use σ :=
  performAll (List.replicate n move)

theorem performAll_append (calls more : List Call) (source : σ) :
    performAll (calls ++ more) source = (performAll calls source).andThen (performAll more) := by
  induction calls generalizing source with
  | nil => exact (Use.behind_zero _).symm
  | cons call calls ih =>
      show (call.perform source).andThen (performAll (calls ++ more)) =
        ((call.perform source).andThen (performAll calls)).andThen (performAll more)
      rw [Use.andThen_andThen]
      exact Use.andThen_congr (ih _)

theorem performAll_singleton (call : Call) (source : σ) :
    performAll [call] source = call.perform source := by
  show (call.perform source).andThen (fun source => ⟨.ok 0, source⟩) = call.perform source
  cases call.perform source with
  | mk pulled rest =>
      cases pulled with
      | error error => rfl
      | ok n => rfl

theorem moves_add (m n : Nat) (source : σ) :
    moves (m + n) source = (moves m source).andThen (moves n) := by
  unfold moves
  rw [← List.replicate_append_replicate, performAll_append]

section Moves

variable {source rest : σ}

theorem moves_of_error {error : StreamError} (n : Nat)
    (hnext : TokenSource.next source = (.error error, rest)) :
    moves (n + 1) source = ⟨.error error, rest⟩ := by
  show (move.perform source).andThen (moves n) = _
  unfold perform
  rw [hnext]
  rfl

theorem moves_of_end (n : Nat) (hnext : TokenSource.next source = (.ok none, rest)) :
    moves (n + 1) source = moves n rest := by
  show (move.perform source).andThen (moves n) = _
  unfold perform
  rw [hnext]
  exact Use.behind_zero _

theorem moves_of_token {kind : TokenKind} (n : Nat)
    (hnext : TokenSource.next source = (.ok (some kind), rest)) :
    moves (n + 1) source = (moves n rest).behind 1 := by
  show (move.perform source).andThen (moves n) = _
  unfold perform
  rw [hnext]
  rfl

end Moves

/-- A run pulls its tokens as some moves do. -/
theorem exists_moves_run (options : RunOptions) (progress : Progress) (source : σ) :
    ∃ n, (⟨(progress.run options source).result.map RunOutcome.tokens,
        (progress.run options source).source⟩ : Use σ) =
      (moves n source).behind progress.tokens := by
  induction progress, source using @Progress.run_induction σ _ options with
  | stops progress source hstop =>
      rw [Progress.run_of_stop hstop]
      exact ⟨0, rfl⟩
  | fails progress source error rest hgoes hnext =>
      rw [Progress.run_of_error hgoes hnext]
      exact ⟨1, by rw [moves_of_error 0 hnext]; rfl⟩
  | ends progress source rest hgoes hnext =>
      rw [Progress.run_of_end hgoes hnext]
      exact ⟨1, by rw [moves_of_end 0 hnext]; rfl⟩
  | gives progress source kind rest hgoes hnext ih =>
      obtain ⟨n, hmoves⟩ := ih
      refine ⟨n + 1, ?_⟩
      rw [Progress.run_of_token hgoes hnext, hmoves, moves_of_token n hnext, Use.behind_behind,
        Progress.tokens_advance]

theorem exists_moves_perform (call : Call) (source : σ) :
    ∃ n, call.perform source = moves n source := by
  cases call with
  | move => exact ⟨1, (performAll_singleton move source).symm⟩
  | run outstanding options =>
      obtain ⟨n, hmoves⟩ := exists_moves_run options { outstanding := outstanding } source
      exact ⟨n, hmoves.trans (Use.behind_zero _)⟩

/-- **Any row of calls does what some moves in a row do.** -/
theorem exists_moves_performAll (calls : List Call) (source : σ) :
    ∃ n, performAll calls source = moves n source := by
  induction calls generalizing source with
  | nil => exact ⟨0, rfl⟩
  | cons call calls ih =>
      obtain ⟨m, hcall⟩ := exists_moves_perform call source
      obtain ⟨n, hcalls⟩ := ih (call.perform source).source
      refine ⟨m + n, ?_⟩
      calc performAll (call :: calls) source
          = (call.perform source).andThen (performAll calls) := rfl
        _ = (call.perform source).andThen (moves n) := Use.andThen_congr hcalls
        _ = moves (m + n) source := by rw [hcall, moves_add]

end Call

/-! ## Writing down what a source gives -/

/-- A source that writes down the tokens that it gives. -/
structure Recorder (σ : Type) where
  source : σ
  given : List Token := []

namespace Recorder

/-- What a recorder gives is what the source inside gives. -/
instance : TokenSource (Recorder σ) where
  next recorder :=
    ((TokenSource.next recorder.source).1, ⟨(TokenSource.next recorder.source).2,
      recorder.given ++ (TokenSource.current (TokenSource.next recorder.source).2).toList⟩)
  current recorder := TokenSource.current recorder.source
  unread recorder := TokenSource.unread recorder.source
  unread_next_lt recorder := TokenSource.unread_next_lt recorder.source

/-- The use of the source inside. -/
def inside (use : Use (Recorder σ)) : Use σ :=
  ⟨use.pulled, use.source.source⟩

theorem next_source {recorder rest : Recorder σ} {answer : Except StreamError (Option TokenKind)}
    (h : TokenSource.next recorder = (answer, rest)) :
    TokenSource.next recorder.source = (answer, rest.source) := by
  obtain ⟨hanswer, hrest⟩ := Prod.mk.inj h
  exact Prod.ext hanswer (congrArg Recorder.source hrest)

/-- A run does not notice that its tokens are written down. -/
theorem run_source (options : RunOptions) (progress : Progress) (recorder : Recorder σ) :
    (progress.run options recorder).result = (progress.run options recorder.source).result ∧
      (progress.run options recorder).source.source =
        (progress.run options recorder.source).source := by
  induction progress, recorder using @Progress.run_induction (Recorder σ) _ options with
  | stops progress recorder hstop =>
      rw [Progress.run_of_stop hstop, Progress.run_of_stop hstop]
      exact ⟨rfl, rfl⟩
  | fails progress recorder error rest hgoes hnext =>
      rw [Progress.run_of_error hgoes hnext, Progress.run_of_error hgoes (next_source hnext)]
      exact ⟨rfl, rfl⟩
  | ends progress recorder rest hgoes hnext =>
      rw [Progress.run_of_end hgoes hnext, Progress.run_of_end hgoes (next_source hnext)]
      exact ⟨rfl, rfl⟩
  | gives progress recorder kind rest hgoes hnext ih =>
      rw [Progress.run_of_token hgoes hnext, Progress.run_of_token hgoes (next_source hnext)]
      exact ih

theorem perform_source (call : Call) (recorder : Recorder σ) :
    call.perform recorder.source = inside (call.perform recorder) := by
  cases call with
  | move => rfl
  | run outstanding options =>
      obtain ⟨hresult, hsource⟩ := run_source options { outstanding := outstanding } recorder
      exact Use.ext (congrArg (Except.map RunOutcome.tokens) hresult.symm) hsource.symm

theorem performAll_source (calls : List Call) (recorder : Recorder σ) :
    Call.performAll calls recorder.source = inside (Call.performAll calls recorder) := by
  induction calls generalizing recorder with
  | nil => rfl
  | cons call calls ih =>
      show (call.perform recorder.source).andThen (Call.performAll calls) =
        inside ((call.perform recorder).andThen (Call.performAll calls))
      rw [perform_source]
      cases call.perform recorder with
      | mk pulled rest =>
          cases pulled with
          | error error => rfl
          | ok n => exact congrArg (Use.behind · n) (ih rest)

section Given

variable [LawfulTokenSource σ] {source rest : σ} {answer : Except StreamError (Option TokenKind)}

/-- A move that gives no token is not written down. -/
theorem next_of_no_token (h : TokenSource.next source = (answer, rest))
    (hanswer : answer.toOption.join = none) (given : List Token) :
    TokenSource.next (Recorder.mk source given) = (answer, ⟨rest, given⟩) := by
  have hcurrent := TokenSource.current_of_no_token h hanswer
  show ((TokenSource.next source).1, Recorder.mk (TokenSource.next source).2
    (given ++ (TokenSource.current (TokenSource.next source).2).toList)) = _
  rw [h, hcurrent, Option.toList_none, List.append_nil]

theorem exists_next_of_token {kind : TokenKind}
    (h : TokenSource.next source = (.ok (some kind), rest)) (given : List Token) :
    ∃ token, TokenSource.current rest = some token ∧
      TokenSource.next (Recorder.mk source given) =
        (.ok (some kind), ⟨rest, given ++ [token]⟩) := by
  obtain ⟨token, hcurrent, -⟩ := TokenSource.exists_current h
  refine ⟨token, hcurrent, ?_⟩
  show ((TokenSource.next source).1, Recorder.mk (TokenSource.next source).2
    (given ++ (TokenSource.current (TokenSource.next source).2).toList)) = _
  rw [h, hcurrent, Option.toList_some]

/-- What some moves over a source give, and how many tokens they count. -/
theorem given_moves [EndingTokenSource σ] (n : Nat) (source : σ) (given : List Token) :
    ∃ tokens, (Call.moves n (Recorder.mk source given)).source.given = given ++ tokens ∧
      tokens = TokenSource.firstTokens source tokens.length ∧
      ∀ count, (Call.moves n (Recorder.mk source given)).pulled = .ok count →
        count = tokens.length := by
  induction n generalizing source given with
  | zero => exact ⟨[], (List.append_nil given).symm, rfl, fun _ h => (Except.ok.inj h).symm⟩
  | succ n ih =>
      match hnext : TokenSource.next source with
      | (.error error, rest) =>
          rw [Call.moves_of_error n (next_of_no_token hnext rfl given)]
          exact ⟨[], (List.append_nil given).symm, rfl, by simp⟩
      | (.ok none, rest) =>
          rw [Call.moves_of_end n (next_of_no_token hnext rfl given)]
          obtain ⟨tokens, hgiven, hfirst, hcount⟩ := ih rest given
          -- Behind the end there are no tokens, so none are the first ones of either source.
          rw [TokenSource.firstTokens_of_end (EndingTokenSource.next_of_end source rest hnext)]
            at hfirst
          subst hfirst
          exact ⟨[], hgiven, rfl, hcount⟩
      | (.ok (some kind), rest) =>
          obtain ⟨token, hcurrent, hmove⟩ := exists_next_of_token hnext given
          rw [Call.moves_of_token n hmove]
          obtain ⟨tokens, hgiven, hfirst, hcount⟩ := ih rest (given ++ [token])
          refine ⟨token :: tokens, ?_, ?_, ?_⟩
          · rw [List.append_assoc] at hgiven
            exact hgiven
          · rw [List.length_cons, TokenSource.firstTokens, hnext, hcurrent, ← hfirst]
            rfl
          · intro count hpulled
            obtain ⟨counted, hrest, rfl⟩ := Use.exists_pulled_of_behind hpulled
            rw [hcount counted hrest, List.length_cons, Nat.add_comm]

end Given
end Recorder

/-- What a row of calls over a source does, and the tokens that it pulls. -/
def Call.recorded (calls : List Call) (source : σ) : Use (Recorder σ) :=
  performAll calls ⟨source, []⟩

/-- Calls over a source pull its tokens in order, and neither lose nor repeat one. -/
structure PullsInOrder (calls : List Call) (source : σ) : Prop where
  /-- Writing the tokens down changes nothing. -/
  inside : Call.performAll calls source = Recorder.inside (Call.recorded calls source)
  /-- The calls leave everything as some moves in a row do. -/
  moves : ∃ n, Call.recorded calls source = Call.moves n ⟨source, []⟩
  /-- What is written down is the beginning of what the source has to give. -/
  given : (Call.recorded calls source).source.given =
    TokenSource.firstTokens source (Call.recorded calls source).source.given.length
  count : ∀ n, (Call.performAll calls source).pulled = .ok n →
    n = (Call.recorded calls source).source.given.length

theorem Call.pullsInOrder [LawfulTokenSource σ] [EndingTokenSource σ] (calls : List Call)
    (source : σ) : PullsInOrder calls source := by
  have hinside : performAll calls source = Recorder.inside (recorded calls source) :=
    Recorder.performAll_source calls ⟨source, []⟩
  obtain ⟨n, hmoves⟩ : ∃ n, recorded calls source = moves n ⟨source, []⟩ :=
    exists_moves_performAll calls (Recorder.mk source [])
  obtain ⟨tokens, hgiven, hfirst, hcount⟩ := Recorder.given_moves n source []
  rw [← hmoves, List.nil_append] at hgiven
  rw [← hmoves] at hcount
  subst hgiven
  refine ⟨hinside, ⟨n, hmoves⟩, hfirst, ?_⟩
  intro count hpulled
  rw [hinside] at hpulled
  exact hcount count hpulled

/-- **Runs over one source compose**: stopping and going on is one run, and calls of all kinds
pull the tokens of the source in order. -/
theorem runs_compose [LawfulTokenSource σ] [EndingTokenSource σ] (source : σ) :
    (∀ (outstanding : Outstanding) (scope : MatchScope) (first : RunOutcome),
      (outstanding.run ⟨scope, true⟩ source).result = .ok first →
        Resumes first
          (first.outstanding.run ⟨scope, false⟩ (outstanding.run ⟨scope, true⟩ source).source)
          (outstanding.run ⟨scope, false⟩ source)) ∧
      ∀ calls, PullsInOrder calls source :=
  ⟨fun _ _ _ hfirst => Outstanding.resumes_run hfirst, fun calls => Call.pullsInOrder calls source⟩

/-- The key `a` decides the first run behind two tokens, and the second one pulls the other two
tokens of `{"a":1}`. -/
theorem runs_compose_point :
    (Outstanding.run ⟨["a"]⟩ ⟨.anywhere, false⟩
        (Tokenizer.ofBytes [0x7b, 0x22, 0x61, 0x22, 0x3a, 0x31, 0x7d])).result =
        .ok ⟨⟨[]⟩, 2 + 2, true⟩ ∧
      PullsInOrder [.run ⟨["a"]⟩ ⟨.anywhere, true⟩, .move]
        (Tokenizer.ofBytes [0x7b, 0x22, 0x61, 0x22, 0x3a, 0x31, 0x7d]) := by
  have hopening : TokenSource.next
      (Tokenizer.ofBytes [0x7b, 0x22, 0x61, 0x22, 0x3a, 0x31, 0x7d]) =
        (.ok (some (.startOf .object)),
          ⟨⟨Feed.ofBytes [0x22, 0x61, 0x22, 0x3a, 0x31, 0x7d], ⟨1, 2⟩⟩, [⟨.object, .keyOrEnd⟩], false,
            some ⟨.startOf .object, none, 0⟩⟩) := by
    rfl
  have hkey (current : Option Token) : TokenSource.next
      (⟨⟨Feed.ofBytes [0x22, 0x61, 0x22, 0x3a, 0x31, 0x7d], ⟨1, 2⟩⟩, [⟨.object, .keyOrEnd⟩], false,
        current⟩ : Tokenizer) =
        (.ok (some .fieldName), ⟨⟨Feed.ofBytes [0x3a, 0x31, 0x7d], ⟨1, 5⟩⟩, [⟨.object, .colon⟩],
          false, some ⟨.fieldName, some "a", 1⟩⟩) := by
    rfl
  have hnumber (current : Option Token) : TokenSource.next
      (⟨⟨Feed.ofBytes [0x3a, 0x31, 0x7d], ⟨1, 5⟩⟩, [⟨.object, .colon⟩], false, current⟩ :
        Tokenizer) =
        (.ok (some .number), ⟨⟨Feed.ofBytes [0x7d], ⟨1, 7⟩⟩, [⟨.object, .commaOrEnd⟩], false,
          some ⟨.number, some "1", 1⟩⟩) := by
    rfl
  have hclosing (current : Option Token) : TokenSource.next
      (⟨⟨Feed.ofBytes [0x7d], ⟨1, 7⟩⟩, [⟨.object, .commaOrEnd⟩], false, current⟩ : Tokenizer) =
        (.ok (some (.endOf .object)), ⟨⟨[], ⟨1, 8⟩⟩, [], false,
          some ⟨.endOf .object, none, 0⟩⟩) := by
    rfl
  have hend (current : Option Token) : TokenSource.next
      (⟨⟨[], ⟨1, 8⟩⟩, [], false, current⟩ : Tokenizer) =
        (.ok none, ⟨⟨[], ⟨1, 8⟩⟩, [], false, none⟩) := by
    rfl
  obtain ⟨hresumes, hcalls⟩ :=
    runs_compose (Tokenizer.ofBytes [0x7b, 0x22, 0x61, 0x22, 0x3a, 0x31, 0x7d])
  have hearly : Outstanding.run ⟨["a"]⟩ ⟨.anywhere, true⟩
      (Tokenizer.ofBytes [0x7b, 0x22, 0x61, 0x22, 0x3a, 0x31, 0x7d]) =
        Progress.conclude ⟨⟨[]⟩, 2, #[.token (.startOf .object) 0, .token .fieldName 1,
          .found "a" 0]⟩ ⟨⟨Feed.ofBytes [0x3a, 0x31, 0x7d], ⟨1, 5⟩⟩, [⟨.object, .colon⟩], false,
            some ⟨.fieldName, some "a", 1⟩⟩ false := by
    unfold Outstanding.run
    rw [Progress.run_of_token rfl hopening, Progress.run_of_token rfl (hkey _),
      Progress.run_of_stop rfl]
    rfl
  have hlate (current : Option Token) : (Outstanding.run ⟨[]⟩ ⟨.anywhere, false⟩
      (⟨⟨Feed.ofBytes [0x3a, 0x31, 0x7d], ⟨1, 5⟩⟩, [⟨.object, .colon⟩], false, current⟩ :
        Tokenizer)).result = .ok ⟨⟨[]⟩, 2, true⟩ := by
    unfold Outstanding.run
    rw [Progress.run_of_token rfl (hnumber _), Progress.run_of_token rfl (hclosing _),
      Progress.run_of_end rfl (hend _)]
    rfl
  have hresumed := (hresumes ⟨["a"]⟩ .anywhere ⟨⟨[]⟩, 2, false⟩ (by rw [hearly]; rfl)).result
  rw [hearly] at hresumed
  exact ⟨hresumed.trans (congrArg (Except.map _) (hlate _)), hcalls _⟩

end RequiredKeys
