import RequiredKeys.Proofs.Requirement.Composition
import RequiredKeys.Proofs.Requirement.Fold

/-!
# The account of a run

A run infers what a token has taken away from the numbers of names in front of it and behind it.
This module says what the account that comes of it tells of the tokens.

* `Outstanding.taken?` is the name that a token takes away, told from the token and the names, and
  `Outstanding.account` is the account that one would write of some tokens with it.
* `Progress.events_advance` is one round of the loop, and `Progress.exists_account` the run: its
  account is the one of the tokens that it pulls, and a last event if it succeeds.
* `Outstanding.takenNames` says in which order names are taken, without a fold: in the order in
  which they occur first.  `Outstanding.found_account` is the account of them, in which the number
  of names left goes down by one at a time.
-/

namespace RequiredKeys

namespace Outstanding

/-- The name that a token takes away, if the scope admits it. -/
def taken? (outstanding : Outstanding) (scope : MatchScope) (token : Token) : Option String :=
  if scope.admits token then token.offeredName?.filter (· ∈ outstanding.names) else none

/-- The account of some tokens: each of them is told, and the name that it takes away behind it,
with the number of names that are left. -/
def account (scope : MatchScope) : Outstanding → List Token → List RunEvent
  | _, [] => []
  | outstanding, token :: tokens =>
    .token token.kind token.depth ::
      match outstanding.taken? scope token with
      | some name =>
        .found name (outstanding.remaining - 1) ::
          account scope ⟨outstanding.names.erase name⟩ tokens
      | none => account scope outstanding tokens

variable {outstanding : Outstanding} {scope : MatchScope} {token : Token} {name : String}

theorem taken?_eq_some_iff :
    outstanding.taken? scope token = some name ↔
      scope.admits token = true ∧ token.offeredName? = some name ∧ name ∈ outstanding.names := by
  unfold taken?
  cases scope.admits token with
  | true => simp [Option.filter_eq_some_iff]
  | false => simp

/-- What an admitted token offers in vain is not outstanding. -/
theorem not_mem_of_not_taken (h : outstanding.taken? scope token = none)
    (hadmits : scope.admits token = true) (hoffers : token.offeredName? = some name) :
    name ∉ outstanding.names := by
  intro hmem
  rw [taken?_eq_some_iff.mpr ⟨hadmits, hoffers, hmem⟩] at h
  simp at h

theorem account_cons_of_taken (h : outstanding.taken? scope token = some name)
    (tokens : List Token) :
    outstanding.account scope (token :: tokens) = .token token.kind token.depth ::
      .found name (outstanding.remaining - 1) ::
        account scope ⟨outstanding.names.erase name⟩ tokens := by
  rw [account, h]

theorem account_cons_of_not_taken (h : outstanding.taken? scope token = none)
    (tokens : List Token) :
    outstanding.account scope (token :: tokens) =
      .token token.kind token.depth :: outstanding.account scope tokens := by
  rw [account, h]

end Outstanding

/-! ## One token -/

namespace Progress

variable {progress : Progress} {scope : MatchScope} {token : Token} {name : String}

/-- A token that takes a name away is told with that name. -/
theorem offer_of_taken (h : progress.outstanding.taken? scope token = some name) :
    progress.offer scope token =
      ⟨⟨progress.outstanding.names.erase name⟩, progress.tokens,
        (progress.events.push (.token token.kind token.depth)).push
          (.found name (progress.outstanding.remaining - 1))⟩ := by
  obtain ⟨hadmits, hoffers, hmem⟩ := Outstanding.taken?_eq_some_iff.mp h
  obtain ⟨-, htext⟩ := Json.offeredName?_eq_some_iff.mp hoffers
  have hobserve : progress.outstanding.observe token =
      ⟨progress.outstanding.names.erase name⟩ :=
    Outstanding.observe_of_offeredName?_eq_some hoffers
  have hremaining : (progress.outstanding.observe token).remaining =
      progress.outstanding.remaining - 1 := by
    rw [hobserve]
    exact List.length_erase_of_mem hmem
  have hpositive : 0 < progress.outstanding.remaining := List.length_pos_of_mem hmem
  unfold offer
  dsimp only
  rw [if_pos hadmits, hremaining, if_pos (by omega), hobserve, htext]
  rfl

/-- A token that takes nothing away is only told. -/
theorem offer_of_not_taken (h : progress.outstanding.taken? scope token = none) :
    progress.offer scope token =
      ⟨progress.outstanding, progress.tokens,
        progress.events.push (.token token.kind token.depth)⟩ := by
  unfold offer
  dsimp only
  cases hadmits : scope.admits token with
  | false => rfl
  | true =>
      have hsame : progress.outstanding.observe token = progress.outstanding := by
        cases hoffers : token.offeredName? with
        | none => exact Outstanding.observe_of_offeredName?_eq_none hoffers
        | some name =>
            have hmem := Outstanding.not_mem_of_not_taken h hadmits hoffers
            rw [Outstanding.observe_of_offeredName?_eq_some hoffers, List.erase_of_not_mem hmem]
      rw [if_pos rfl, hsame, if_neg (Nat.lt_irrefl _)]

/-- **One round of the loop** writes what the account says of the token that is pulled, if one
is. -/
theorem events_advance (progress : Progress) (scope : MatchScope) (current : Option Token)
    (tokens : List Token) :
    (progress.advance scope current).events.toList ++
        (progress.advance scope current).outstanding.account scope tokens =
      progress.events.toList ++
        progress.outstanding.account scope (current.toList ++ tokens) := by
  -- That the pull is counted makes no difference to names and events.
  let counted : Progress := { progress with tokens := progress.tokens + 1 }
  cases current with
  | none => rfl
  | some token =>
      have hadvance : progress.advance scope (some token) = counted.offer scope token := rfl
      rw [hadvance, Option.toList_some, List.singleton_append]
      cases htaken : progress.outstanding.taken? scope token with
      | some name =>
          have hcounted : counted.outstanding.taken? scope token = some name := htaken
          rw [offer_of_taken hcounted, Outstanding.account_cons_of_taken htaken]
          simp [counted]
      | none =>
          have hcounted : counted.outstanding.taken? scope token = none := htaken
          rw [offer_of_not_taken hcounted, Outstanding.account_cons_of_not_taken htaken]
          simp [counted]

end Progress

/-! ## The run -/

/-- The last event of a run, if it has not failed. -/
def RunOutcome.closing : Except StreamError RunOutcome → List RunEvent
  | .ok outcome => [.finished outcome.tokens outcome.reachedEnd outcome.outstanding.remaining]
  | .error _ => []

namespace Progress

variable {σ : Type} [TokenSource σ]

/-- **The account of a run** is the one of the tokens that it pulls, and a last event if the run
succeeds.  A source that keeps its law gives a token with each pull. -/
theorem exists_account (options : RunOptions) (progress : Progress) (source : σ) :
    ∃ n, (progress.run options source).events = progress.events.toList ++
        progress.outstanding.account options.scope (TokenSource.firstTokens source n) ++
          RunOutcome.closing (progress.run options source).result ∧
      (LawfulTokenSource σ → (TokenSource.firstTokens source n).length = n) ∧
      ∀ outcome, (progress.run options source).result = .ok outcome →
        outcome.tokens = progress.tokens + n ∧
          outcome.outstanding = progress.outstanding.afterFirst options.scope source n := by
  induction progress, source using @run_induction σ _ options with
  | stops progress source hstop =>
      rw [run_of_stop hstop]
      refine ⟨0, ?_, fun _ => rfl, ?_⟩
      · simp [conclude, RunOutcome.closing, TokenSource.firstTokens, Outstanding.account]
      · intro outcome hresult
        obtain rfl := Except.ok.inj hresult
        exact ⟨rfl, rfl⟩
  | fails progress source error rest hgoes hnext =>
      rw [run_of_error hgoes hnext]
      refine ⟨0, ?_, fun _ => rfl, ?_⟩
      · simp [RunOutcome.closing, TokenSource.firstTokens, Outstanding.account]
      · intro outcome hresult
        simp at hresult
  | ends progress source rest hgoes hnext =>
      rw [run_of_end hgoes hnext]
      refine ⟨0, ?_, fun _ => rfl, ?_⟩
      · simp [conclude, RunOutcome.closing, TokenSource.firstTokens, Outstanding.account]
      · intro outcome hresult
        obtain rfl := Except.ok.inj hresult
        exact ⟨rfl, rfl⟩
  | gives progress source kind rest hgoes hnext ih =>
      obtain ⟨n, hevents, hlength, houtcome⟩ := ih
      obtain rfl : (TokenSource.next source).2 = rest := by rw [hnext]
      rw [run_of_token hgoes hnext]
      refine ⟨n + 1, ?_, ?_, ?_⟩
      · rw [hevents, events_advance, TokenSource.firstTokens]
      · intro hlaw
        obtain ⟨token, hcurrent, -⟩ := TokenSource.exists_current hnext
        rw [TokenSource.firstTokens, List.length_append, hlength hlaw, hcurrent]
        show 1 + n = n + 1
        omega
      · intro outcome hresult
        obtain ⟨htokens, hleft⟩ := houtcome outcome hresult
        rw [tokens_advance] at htokens
        rw [outstanding_afterFirst_advance] at hleft
        exact ⟨by omega, hleft⟩

end Progress

/-! ## The names of an account -/

namespace RunEvent

/-- The kind and the depth of a token that is told. -/
def token? : RunEvent → Option (TokenKind × Nat)
  | token kind depth => some (kind, depth)
  | _ => none

/-- The name that is told to be found, and the number of names left. -/
def found? : RunEvent → Option (String × Nat)
  | found name remaining => some (name, remaining)
  | _ => none

/-- What is told of a run at its end. -/
def finished? : RunEvent → Option (Nat × Bool × Nat)
  | finished tokens reachedEnd missing => some (tokens, reachedEnd, missing)
  | _ => none

end RunEvent

namespace Outstanding

/-- The outstanding names that the admitted ones among some tokens offer, each once, in the order
in which they are offered first. -/
def takenNames (outstanding : Outstanding) (scope : MatchScope) (tokens : List Token) :
    List String :=
  (firstOccurrences (Json.offeredNames (tokens.filter scope.admits))).filter
    (· ∈ outstanding.names)

variable {outstanding : Outstanding} {scope : MatchScope} {token : Token} {name : String}

theorem takenNames_cons_of_taken (hnodup : outstanding.names.Nodup)
    (h : outstanding.taken? scope token = some name) (tokens : List Token) :
    outstanding.takenNames scope (token :: tokens) =
      name :: takenNames ⟨outstanding.names.erase name⟩ scope tokens := by
  obtain ⟨hadmits, hoffers, hmem⟩ := taken?_eq_some_iff.mp h
  have hoffered : Json.offeredNames ((token :: tokens).filter scope.admits) =
      name :: Json.offeredNames (tokens.filter scope.admits) := by
    rw [List.filter_cons_of_pos hadmits, Json.offeredNames, List.filterMap_cons, hoffers]
    rfl
  unfold takenNames
  rw [hoffered, firstOccurrences_cons, List.filter_cons_of_pos (by simpa using hmem),
    List.filter_filter]
  congr 1
  apply List.filter_congr
  intro other _
  by_cases hother : other = name
  · simp [hother, hnodup.mem_erase_iff]
  · simp [hother, hnodup.mem_erase_iff]

/-- A token that takes nothing away offers nothing, or nothing that is outstanding. -/
theorem takenNames_cons_of_not_taken (h : outstanding.taken? scope token = none)
    (tokens : List Token) :
    outstanding.takenNames scope (token :: tokens) = outstanding.takenNames scope tokens := by
  unfold takenNames
  cases hadmits : scope.admits token with
  | false => rw [List.filter_cons_of_neg (by simp [hadmits])]
  | true =>
      rw [List.filter_cons_of_pos hadmits, Json.offeredNames, List.filterMap_cons]
      cases hoffers : token.offeredName? with
      | none => rfl
      | some name =>
          have hmem := not_mem_of_not_taken h hadmits hoffers
          dsimp only
          rw [firstOccurrences_cons, List.filter_cons_of_neg (by simpa using hmem),
            List.filter_filter]
          apply List.filter_congr
          intro other _
          by_cases hother : other = name
          · simp [hother, hmem]
          · simp [hother]

/-- **Names are found in the order in which they occur first**, and each of them leaves one name
less. -/
theorem found_account (hnodup : outstanding.names.Nodup) (tokens : List Token) :
    (outstanding.account scope tokens).filterMap RunEvent.found? =
      (outstanding.takenNames scope tokens).mapIdx
        (fun index name => (name, outstanding.remaining - (index + 1))) := by
  induction tokens generalizing outstanding with
  | nil => rfl
  | cons token tokens ih =>
      cases htaken : outstanding.taken? scope token with
      | some name =>
          have hmem := (taken?_eq_some_iff.mp htaken).2.2
          have hremaining : (outstanding.names.erase name).length = outstanding.names.length - 1 :=
            List.length_erase_of_mem hmem
          rw [account_cons_of_taken htaken, takenNames_cons_of_taken hnodup htaken,
            List.mapIdx_cons]
          show (name, outstanding.remaining - 1) ::
            (account scope ⟨outstanding.names.erase name⟩ tokens).filterMap RunEvent.found? = _
          rw [ih (hnodup.erase name)]
          congr 2
          funext index other
          rw [remaining, hremaining, remaining]
          congr 1
          omega
      | none =>
          rw [account_cons_of_not_taken htaken, takenNames_cons_of_not_taken htaken]
          exact ih hnodup

/-- Every token is told, in order. -/
theorem tokens_account (outstanding : Outstanding) (scope : MatchScope) (tokens : List Token) :
    (outstanding.account scope tokens).filterMap RunEvent.token? =
      tokens.map (fun token => (token.kind, token.depth)) := by
  induction tokens generalizing outstanding with
  | nil => rfl
  | cons token tokens ih =>
      cases htaken : outstanding.taken? scope token with
      | some name =>
          rw [account_cons_of_taken htaken]
          exact congrArg ((token.kind, token.depth) :: ·) (ih _)
      | none =>
          rw [account_cons_of_not_taken htaken]
          exact congrArg ((token.kind, token.depth) :: ·) (ih _)

/-- Of no token the end of a run is told. -/
theorem finished_account (outstanding : Outstanding) (scope : MatchScope) (tokens : List Token) :
    (outstanding.account scope tokens).filterMap RunEvent.finished? = [] := by
  induction tokens generalizing outstanding with
  | nil => rfl
  | cons token tokens ih =>
      cases htaken : outstanding.taken? scope token with
      | some name =>
          rw [account_cons_of_taken htaken]
          exact ih _
      | none =>
          rw [account_cons_of_not_taken htaken]
          exact ih _

/-- **The names are the ones that are taken and the ones that are left.** -/
theorem perm_takenNames (hnodup : outstanding.names.Nodup) (tokens : List Token) :
    outstanding.names.Perm (outstanding.takenNames scope tokens ++
      (outstanding.observeAll (tokens.filter scope.admits)).names) := by
  have hleft := names_observeAll hnodup (tokens.filter scope.admits)
  have htaken : (outstanding.takenNames scope tokens).Nodup := by
    unfold takenNames
    rw [← eraseDups_eq_firstOccurrences]
    exact (nodup_eraseDups _).filter _
  have hmem (name : String) : name ∈ outstanding.takenNames scope tokens ↔
      name ∈ Json.offeredNames (tokens.filter scope.admits) ∧ name ∈ outstanding.names := by
    unfold takenNames
    rw [← eraseDups_eq_firstOccurrences, List.mem_filter, List.mem_eraseDups, decide_eq_true_eq]
  rw [hleft]
  have hboth : (outstanding.takenNames scope tokens ++ outstanding.names.filter
      (fun name => name ∉ Json.offeredNames (tokens.filter scope.admits))).Nodup := by
    rw [List.nodup_append]
    refine ⟨htaken, hnodup.filter _, ?_⟩
    rintro name hname _ hother rfl
    rw [List.mem_filter, decide_eq_true_eq] at hother
    exact hother.2 ((hmem name).mp hname).1
  apply (List.perm_ext_iff_of_nodup hnodup hboth).mpr
  intro name
  rw [List.mem_append, hmem, List.mem_filter, decide_eq_true_eq]
  by_cases hoffered : name ∈ Json.offeredNames (tokens.filter scope.admits) <;> simp [hoffered]

end Outstanding
end RequiredKeys
