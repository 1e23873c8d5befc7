import RequiredKeys.Proofs.Requirement.Composition
import RequiredKeys.Proofs.Token.Termination

/-!
# Runs come to an end

A run moves its source as long as there is something to look for.  `Progress.EndsAfter` unrolls
that loop, and `Progress.exists_endsAfter` bounds its moves by whatever becomes less with every
token, as the bytes do that a tokenizer has still to read.

`Tokenizer.terminates_ofDocument` puts together what holds of all loops over one document.
-/

namespace RequiredKeys

namespace Progress

variable {σ : Type} [TokenSource σ]

/-- `EndsAfter options progress source moves`: from `progress` the run over `source` is over with
the given number of moves, those that give a token and perhaps one that does not. -/
inductive EndsAfter (options : RunOptions) : Progress → σ → Nat → Prop
  | stops {progress : Progress} {source : σ}
      (hstop : (options.stopWhenSatisfied && progress.outstanding.isSatisfied) = true) :
      EndsAfter options progress source 0
  | fails {progress : Progress} {source rest : σ} {error : StreamError}
      (hgoes : (options.stopWhenSatisfied && progress.outstanding.isSatisfied) = false)
      (hnext : TokenSource.next source = (.error error, rest)) :
      EndsAfter options progress source 1
  | ends {progress : Progress} {source rest : σ}
      (hgoes : (options.stopWhenSatisfied && progress.outstanding.isSatisfied) = false)
      (hnext : TokenSource.next source = (.ok none, rest)) :
      EndsAfter options progress source 1
  | gives {progress : Progress} {source rest : σ} {kind : TokenKind} {moves : Nat}
      (hgoes : (options.stopWhenSatisfied && progress.outstanding.isSatisfied) = false)
      (hnext : TokenSource.next source = (.ok (some kind), rest))
      (h : EndsAfter options (progress.advance options.scope (TokenSource.current rest)) rest
        moves) :
      EndsAfter options progress source (moves + 1)

/-- **Every run ends**, with no more tokens than something has to lose that each token makes
less. -/
theorem exists_endsAfter (options : RunOptions) (progress : Progress) (source : σ)
    (measure : σ → Nat)
    (hmeasure : ∀ (source rest : σ) (kind : TokenKind),
      TokenSource.next source = (.ok (some kind), rest) → measure rest < measure source) :
    ∃ moves, EndsAfter options progress source moves ∧ moves ≤ measure source + 1 ∧
      ∀ outcome, (progress.run options source).result = .ok outcome →
        outcome.tokens ≤ progress.tokens + measure source := by
  induction progress, source using @run_induction σ _ options with
  | stops progress source hstop =>
      refine ⟨0, .stops hstop, Nat.zero_le _, ?_⟩
      intro outcome hresult
      rw [run_of_stop hstop] at hresult
      obtain rfl := Except.ok.inj hresult
      exact Nat.le_add_right progress.tokens _
  | fails progress source error rest hgoes hnext =>
      refine ⟨1, .fails hgoes hnext, Nat.le_add_left 1 _, ?_⟩
      intro outcome hresult
      rw [run_of_error hgoes hnext] at hresult
      simp at hresult
  | ends progress source rest hgoes hnext =>
      refine ⟨1, .ends hgoes hnext, Nat.le_add_left 1 _, ?_⟩
      intro outcome hresult
      rw [run_of_end hgoes hnext] at hresult
      obtain rfl := Except.ok.inj hresult
      exact Nat.le_add_right progress.tokens _
  | gives progress source kind rest hgoes hnext ih =>
      obtain ⟨moves, hends, hmoves, htokens⟩ := ih
      have hless := hmeasure source rest kind hnext
      refine ⟨moves + 1, .gives hgoes hnext hends, by omega, ?_⟩
      intro outcome hresult
      rw [run_of_token hgoes hnext] at hresult
      have hcount := htokens outcome hresult
      rw [tokens_advance] at hcount
      omega

end Progress

namespace Tokenizer

/-- The bytes that a tokenizer has still to read become less with every token. -/
theorem length_bytes_lt_of_next {tokenizer rest : Tokenizer} {kind : TokenKind}
    (h : TokenSource.next tokenizer = (.ok (some kind), rest)) :
    rest.cursor.feed.bytes.length < tokenizer.cursor.feed.bytes.length := by
  obtain ⟨token, hpull, -, -⟩ := exists_pull h
  obtain ⟨taken, htaken, hfeed⟩ := exists_taken_of_token (congrArg Prod.fst hpull)
  have hrest : tokenizer.pull.2 = rest := congrArg Prod.snd hpull
  have hpositive := List.length_pos_iff.mpr htaken
  rw [hfeed, hrest, Feed.bytes_append, Feed.bytes_ofBytes, List.length_append]
  omega

/-- What ends, and how soon, over a document whose reader fails as the list says.  A caller may
have pulled any number of times, whatever the pulls have answered. -/
structure Terminates (document : List UInt8) (list : List ReadFailure) : Prop where
  /-- The reader raises failures of the list only, and each of them once at most. -/
  failures : (Feed.ofDocument document list).failures.Subperm (list.map ReadFailure.reason)
  /-- Every call returns.  With a token it has consumed a byte, with a failure this failure. -/
  calls : ∀ pulls, ((ofFeed (Feed.ofDocument document list)).afterPulls pulls).Spends
  /-- One of the calls returns the end of the input or an error of it, and those before it return
  tokens and failures. -/
  concludes : ∃ calls, calls ≤ document.length + list.length ∧
    concludes ((ofFeed (Feed.ofDocument document list)).afterPulls calls).pull.1 = true ∧
      ∀ earlier, earlier < calls →
        concludes ((ofFeed (Feed.ofDocument document list)).afterPulls earlier).pull.1 = false
  /-- Every run ends, with no more tokens than bytes. -/
  run : ∀ pulls (outstanding : Outstanding) (options : RunOptions),
    (∃ moves, moves ≤ document.length + 1 ∧
      Progress.EndsAfter options { outstanding := outstanding }
        ((ofFeed (Feed.ofDocument document list)).afterPulls pulls) moves) ∧
      ∀ outcome, (outstanding.run options
        ((ofFeed (Feed.ofDocument document list)).afterPulls pulls)).result = .ok outcome →
          outcome.tokens ≤ document.length

/-- **Everything over a finite document ends**, whatever fails on the way. -/
theorem terminates_ofDocument (document : List UInt8) (list : List ReadFailure) :
    Terminates document list where
  failures := Feed.failures_ofDocument_subperm document list
  calls pulls := spends _
  concludes := by
    obtain ⟨calls, hcalls, hconcludes⟩ :=
      (ofFeed (Feed.ofDocument document list)).exists_conclusion
    exact ⟨calls, hcalls.trans (Feed.length_ofDocument_le document list), hconcludes⟩
  run pulls outstanding options := by
    obtain ⟨moves, hends, hmoves, htokens⟩ := Progress.exists_endsAfter options
      { outstanding := outstanding } ((ofFeed (Feed.ofDocument document list)).afterPulls pulls)
      (fun tokenizer => tokenizer.cursor.feed.bytes.length)
      (fun _ _ _ hnext => length_bytes_lt_of_next hnext)
    -- What earlier pulls have left is a part of the document.
    have hbytes := (advances_consumed (Feed.ofDocument document list) pulls).bytes
    have hdocument : (ofFeed (Feed.ofDocument document list)).cursor.feed.bytes = document :=
      Feed.bytes_ofDocument document list
    rw [hdocument] at hbytes
    have hlength := congrArg List.length hbytes
    rw [List.length_append] at hlength
    refine ⟨⟨moves, by omega, hends⟩, ?_⟩
    intro outcome hresult
    have hcount := htokens outcome hresult
    dsimp only at hcount
    omega

/-- A number is given up with the failure behind its last byte, and a failure behind the end is
never raised; so the third of five possible calls concludes. -/
example : (ofFeed (Feed.ofDocument [0x30] [⟨0, "a"⟩, ⟨1, "b"⟩, ⟨2, "c"⟩])).answers 3 =
    [.error (.unreadable "a"), .error (.unreadable "b"), .ok none] := by
  rfl

end Tokenizer
end RequiredKeys
