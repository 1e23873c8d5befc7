import RequiredKeys.Proofs.Input.Failures
import RequiredKeys.Proofs.Requirement.EarlyStop

/-!
# No lookahead

A run that may stop reads nothing behind the key that decides it.  So a document that is decided
may go on in any way: with malformed text, with reads that fail, or not at all.

A pull that gives a token looks at what the feed holds behind the lexeme only if the token is a
number, since a number does not end by itself (`Tokenizer.pull_followedBy`).  A number decides
nothing, and where another pull gives a token behind it there is a byte to look at.  Hence the
whole way of a run to its decision is the same whatever the feed goes on with
(`Progress.Settles.followedBy`), and it ends with the quote of a key
(`Progress.Settles.exists_taken`).
-/

namespace RequiredKeys

namespace Tokenizer

/-- The tokenizer with `tail` behind all that its feed holds. -/
def followedBy (tokenizer : Tokenizer) (tail : Feed) : Tokenizer :=
  { tokenizer with cursor := ⟨tokenizer.cursor.feed ++ tail, tokenizer.position⟩ }

theorem position_followedBy (tokenizer : Tokenizer) (tail : Feed) :
    (tokenizer.followedBy tail).position = tokenizer.position := rfl

theorem depth_followedBy (tokenizer : Tokenizer) (tail : Feed) :
    (tokenizer.followedBy tail).depth = tokenizer.depth := rfl

/-- **A pull does not see what the feed goes on with**, unless it gives a number and has come to
the end of the feed. -/
theorem pull_followedBy {tokenizer next : Tokenizer} {token : Token}
    (h : tokenizer.pull = (.ok (some token), next))
    (hends : token.kind = .number → next.cursor.feed ≠ []) (tail : Feed) :
    (tokenizer.followedBy tail).pull = (.ok (some token), next.followedBy tail) := by
  obtain ⟨gap, lexeme, rest, inner, after, hfeed, hcrosses, hreads, hnumber, hdue, rfl⟩ :=
    pull_eq_token_iff.mp h
  apply pull_eq_token_iff.mpr
  refine ⟨gap, lexeme, rest ++ tail, inner, after, ?_, hcrosses, hreads, ?_, hdue, rfl⟩
  · show tokenizer.cursor.feed ++ tail = _
    rw [hfeed, List.append_assoc]
  · intro hkind
    obtain hnil | ⟨b, more, rfl, hlongest⟩ := hnumber hkind
    · exact absurd hnil (hends hkind)
    · exact .inr ⟨b, more ++ tail, rfl, hlongest⟩

end Tokenizer

/-- Only a key takes a name away, so only a key can be the last token that a run needs. -/
theorem Progress.kind_of_isSatisfied_advance {progress : Progress} {scope : MatchScope}
    {token : Token} (h : progress.outstanding.isSatisfied = false)
    (hadvance : (progress.advance scope (some token)).outstanding.isSatisfied = true) :
    token.kind = .fieldName := by
  apply Decidable.byContradiction
  intro hkind
  have hoffers : token.offeredName? = none := by
    unfold Token.offeredName?
    split
    · next hkey => exact absurd hkey hkind
    · rfl
  rw [outstanding_advance, Outstanding.observe_of_offeredName?_eq_none hoffers, ite_self, h]
    at hadvance
  contradiction

/-- The lexeme of a key ends with a quote. -/
theorem Nesting.Reads.getLast?_of_key {inner after : Nesting} {lexeme : List UInt8} {token : Token}
    (h : inner.Reads lexeme token after) (hkind : token.kind = .fieldName) :
    lexeme.getLast? = some Ascii.quote := by
  cases h with
  | exit => simp at hkind
  | enter => simp at hkind
  | key _ hname =>
      obtain ⟨body, rfl, -⟩ := hname
      exact List.getLast?_concat
  | scalar _ _ hscalar htoken =>
      obtain ⟨hscalarKind, -⟩ := Json.isScalar_of_tokens_eq hscalar htoken
      simp [hkind, TokenKind.isScalar] at hscalarKind

namespace Progress.Settles

variable {scope : MatchScope} {progress last : Progress} {tokenizer final : Tokenizer}

/-- **The way to the decision is the same whatever the feed goes on with.** -/
theorem followedBy (h : Settles scope progress tokenizer last final) (tail : Feed) :
    Settles scope progress (tokenizer.followedBy tail) last (final.followedBy tail) := by
  induction h with
  | here h => exact .here h
  | @behind progress last tokenizer rest final kind h hnext hrest ih =>
      obtain ⟨token, hpull, rfl, hcurrent⟩ := Tokenizer.exists_pull hnext
      rw [hcurrent] at hrest ih
      have hends : token.kind = .number → rest.cursor.feed ≠ [] := by
        intro hnumber
        cases hrest with
        | here hsatisfied =>
            rw [kind_of_isSatisfied_advance h hsatisfied] at hnumber
            contradiction
        | behind _ hbehind _ =>
            -- A token is still to come, so the feed is not at its end.
            obtain ⟨other, hother, -, -⟩ := Tokenizer.exists_pull hbehind
            have hlength := Tokenizer.length_feed_lt_of_pull hother
            apply List.ne_nil_of_length_pos
            omega
      have hfollowed := Tokenizer.pull_followedBy hpull hends tail
      apply Settles.behind h (Tokenizer.next_eq_of_pull hfollowed)
      rw [show TokenSource.current (rest.followedBy tail) = some token from hcurrent]
      exact ih

/-- What is read on the way to the decision: nothing where nothing is outstanding, and else bytes
that end with the quote of a key. -/
theorem exists_taken (h : Settles scope progress tokenizer last final) :
    ∃ taken, tokenizer.cursor.feed = Feed.ofBytes taken ++ final.cursor.feed ∧
      final.position = tokenizer.position.afterAll taken ∧
      if progress.outstanding.isSatisfied then taken = []
      else taken.getLast? = some Ascii.quote := by
  induction h with
  | here h => exact ⟨[], rfl, rfl, by rw [if_pos h]⟩
  | @behind progress last tokenizer rest final kind h hnext _ ih =>
      obtain ⟨token, hpull, -, hcurrent⟩ := Tokenizer.exists_pull hnext
      obtain ⟨gap, lexeme, behind, inner, after, hfeed, -, hreads, -, -, rfl⟩ :=
        Tokenizer.pull_eq_token_iff.mp hpull
      obtain ⟨taken, hbehind, hposition, hlast⟩ := ih
      rw [hcurrent] at hlast
      have hbehind : behind = Feed.ofBytes taken ++ final.cursor.feed := hbehind
      refine ⟨gap ++ lexeme ++ taken, ?_, ?_, ?_⟩
      · rw [hfeed, hbehind, Feed.ofBytes_append _ taken, List.append_assoc]
      · rw [hposition, Position.afterAll_append _ _ taken]
        rfl
      · rw [h, if_neg Bool.false_ne_true, List.append_assoc]
        split at hlast
        · next hsatisfied =>
            -- The token is the one that decides.
            obtain rfl : taken = [] := hlast
            have hkey := kind_of_isSatisfied_advance h hsatisfied
            rw [List.append_nil, List.getLast?_append, hreads.getLast?_of_key hkey]
            rfl
        · rw [List.getLast?_append, List.getLast?_append, hlast]
          rfl

end Progress.Settles

/-! ## Documents that go on -/

/-- `SatisfiedAtEnd clause scope document run`: over `document`, whose reads never fail, a run
that may stop does so with nothing outstanding and nothing left to read. -/
structure Clause.SatisfiedAtEnd (clause : Clause) (scope : MatchScope) (document : List UInt8)
    (run : Run Tokenizer) (outcome : RunOutcome) : Prop where
  runFeed_eq : clause.runFeed (Feed.ofBytes document) ⟨scope, true⟩ = .ok run
  result_eq : run.result = .ok outcome
  isSatisfied : outcome.outstanding.isSatisfied = true
  feed_eq : run.source.cursor.feed = []

namespace Clause.SatisfiedAtEnd

variable {clause : Clause} {scope : MatchScope} {document : List UInt8} {run : Run Tokenizer}
  {outcome : RunOutcome}

/-- A run that is satisfied has stopped. -/
theorem exists_settles (h : clause.SatisfiedAtEnd scope document run outcome) :
    ∃ outstanding last final, Outstanding.ofClause clause = .ok outstanding ∧
      Progress.Settles scope { outstanding := outstanding } (Tokenizer.ofBytes document) last final ∧
      run = last.conclude final false := by
  have hrun := h.runFeed_eq
  unfold runFeed at hrun
  cases hclause : Outstanding.ofClause clause with
  | error error =>
      rw [hclause] at hrun
      simp [Except.map] at hrun
  | ok outstanding =>
      rw [hclause] at hrun
      have hrun : Progress.run ⟨scope, true⟩ { outstanding := outstanding }
          (Tokenizer.ofBytes document) = run := Except.ok.inj hrun
      obtain ⟨last, final, hsettles⟩ | ⟨-, hunsatisfied⟩ := Progress.settles_or_agree scope
        { outstanding := outstanding } (Tokenizer.ofBytes document)
      · exact ⟨outstanding, last, final, rfl, hsettles, hrun.symm.trans hsettles.run_early⟩
      · rw [hrun] at hunsatisfied
        have hfalse := hunsatisfied outcome h.result_eq
        rw [h.isSatisfied] at hfalse
        contradiction

/-- **The same run whatever comes behind the document**, apart from what is left to read. -/
theorem runFeed_append (h : clause.SatisfiedAtEnd scope document run outcome) (tail : Feed) :
    clause.runFeed (Feed.ofBytes document ++ tail) ⟨scope, true⟩ =
        .ok { run with source := run.source.followedBy tail } := by
  obtain ⟨outstanding, last, final, hclause, hsettles, rfl⟩ := h.exists_settles
  unfold runFeed
  rw [hclause]
  exact congrArg Except.ok (hsettles.followedBy tail).run_early

/-- The run has taken the whole document, which ends with a key if it is not empty. -/
theorem position_eq (h : clause.SatisfiedAtEnd scope document run outcome) :
    run.source.position = Position.start.afterAll document ∧
      (document = [] ∨ document.getLast? = some Ascii.quote) := by
  have hend := h.feed_eq
  obtain ⟨outstanding, last, final, -, hsettles, rfl⟩ := h.exists_settles
  obtain ⟨taken, hfeed, hposition, hlast⟩ := hsettles.exists_taken
  have hend : final.cursor.feed = [] := hend
  rw [hend, List.append_nil] at hfeed
  obtain rfl : document = taken := Feed.ofBytes_injective hfeed
  refine ⟨hposition, ?_⟩
  split at hlast
  · exact .inl hlast
  · exact .inr hlast

end Clause.SatisfiedAtEnd

/-- **Nothing is read behind the key that decides.**  If a document is satisfied at its end, it
may go on with any bytes, and reads may fail there, also the one for the first of these bytes:
the check gives the same outcome.  The tokenizer stands at the end of the document, and all that
is delivered behind it is still to come, a failure that the first look would have used up too. -/
theorem check_of_satisfiedAtEnd {schema : Json} {scope : MatchScope} {document : List UInt8}
    {run : Run Tokenizer} {outcome : RunOutcome}
    (h : (Clause.ofSchema schema).SatisfiedAtEnd scope document run outcome)
    (continuation : List UInt8) {failures : List ReadFailure}
    (hfailures : ∀ failure ∈ failures, document.length ≤ failure.offset) :
    check schema (Feed.ofBytes document) ⟨scope, true⟩ = .ok outcome ∧
      check schema (Feed.ofDocument (document ++ continuation) failures) ⟨scope, true⟩ =
        .ok outcome ∧
      (document = [] ∨ document.getLast? = some Ascii.quote) ∧
      ∃ left, (Clause.ofSchema schema).runFeed
          (Feed.ofDocument (document ++ continuation) failures) ⟨scope, true⟩ = .ok left ∧
        left.source.position = Position.start.afterAll document ∧
        left.source.position = run.source.position ∧
        left.source.depth = run.source.depth ∧
        left.source.cursor.feed =
          Feed.weave (failures.filter (fun failure => !failure.isSilent)) document.length
            continuation := by
  let tail := Feed.weave (failures.filter (fun failure => !failure.isSilent)) document.length
    continuation
  have hfeed : Feed.ofDocument (document ++ continuation) failures =
      Feed.ofBytes document ++ tail := by
    have hbehind : ∀ failure ∈ failures.filter (fun failure => !failure.isSilent),
        0 + document.length ≤ failure.offset := by
      intro failure hmem
      have hoffset := hfailures failure (List.mem_filter.mp hmem).1
      omega
    unfold Feed.ofDocument
    rw [Feed.weave_append hbehind, Nat.zero_add]
  have hlonger := h.runFeed_append tail
  obtain ⟨hposition, hquote⟩ := h.position_eq
  rw [hfeed]
  refine ⟨?_, ?_, hquote, _, hlonger, hposition, run.source.position_followedBy tail,
    run.source.depth_followedBy tail, ?_⟩
  · unfold check
    rw [h.runFeed_eq]
    show Except.mapError CheckError.stream run.result = _
    rw [h.result_eq]
    rfl
  · unfold check
    rw [hlonger]
    show Except.mapError CheckError.stream run.result = _
    rw [h.result_eq]
    rfl
  · show run.source.cursor.feed ++ tail = _
    rw [h.feed_eq, List.nil_append]

/-- Behind `{"a"` comes a bracket that is wrong there, and before that a read that fails. -/
theorem check_of_satisfiedAtEnd_failure :
    check (.object [("required", .array [.string "a"])])
        (Feed.ofDocument [0x7b, 0x22, 0x61, 0x22, 0x5d] [⟨4, "broken"⟩]) ⟨.topLevel, true⟩ =
      .ok ⟨⟨[]⟩, 2, false⟩ := by
  let inObject : Tokenizer := ⟨⟨Feed.ofBytes [0x22, 0x61, 0x22], ⟨1, 2⟩⟩, [⟨.object, .keyOrEnd⟩],
    false, some ⟨.startOf .object, none, 0⟩⟩
  let behindKey : Tokenizer := ⟨⟨[], ⟨1, 5⟩⟩, [⟨.object, .colon⟩], false,
    some ⟨.fieldName, some "a", 1⟩⟩
  have hopening : TokenSource.next (Tokenizer.ofBytes [0x7b, 0x22, 0x61, 0x22]) =
      (.ok (some (.startOf .object)), inObject) := by
    rfl
  have hkey : TokenSource.next inObject = (.ok (some .fieldName), behindKey) := by
    rfl
  have hsettles : Progress.Settles .topLevel { outstanding := ⟨["a"]⟩ }
      (Tokenizer.ofBytes [0x7b, 0x22, 0x61, 0x22]) _ behindKey :=
    .behind rfl hopening (.behind rfl hkey (.here rfl))
  have hsatisfied : (Clause.ofSchema (.object [("required", .array [.string "a"])])).SatisfiedAtEnd
      .topLevel [0x7b, 0x22, 0x61, 0x22] _ _ :=
    ⟨congrArg Except.ok hsettles.run_early, rfl, rfl, rfl⟩
  exact (check_of_satisfiedAtEnd hsatisfied [0x5d] (by simp)).2.1

end RequiredKeys
