import RequiredKeys.Program.Log
import RequiredKeys.Proofs.Requirement.Account

/-!
# The log of a run

A run is reported by records, which readers of a log tell apart by their messages.  This module
says that the log of a run accounts for its outcome: with all levels shown, one can read off it
which tokens were pulled, which names were taken away, and what was left.

* `bearing_record` picks the records of a message out of a log, whatever events it is made of.
* `LogAccounts` is what the log of a run that succeeds tells, and `Outstanding.logAccounts_run`
  that it does, and that a run that fails is not reported to have finished.
-/

namespace RequiredKeys

theorem LogFilter.everything_shows (level : LogLevel) : everything.shows level = true := by
  cases level <;> rfl

/-- The records that are shown of a run if all levels are. -/
def Run.log {σ : Type} (run : Run σ) : List LogRecord :=
  (run.events.map (fun event => (Event.run event).record)).filter
    (fun record => LogFilter.everything.shows record.level)

theorem Run.log_eq {σ : Type} (run : Run σ) :
    run.log = run.events.map (fun event => (Event.run event).record) := by
  unfold log
  rw [List.filter_eq_self]
  intro record _
  exact LogFilter.everything_shows record.level

namespace LogRecord

/-- The records of a log with a message. -/
def bearing (message : String) (records : List LogRecord) : List LogRecord :=
  records.filter (fun record => record.message == message)

/-- Where a message stands for one kind of event, its records are the ones of these events. -/
theorem bearing_record {α : Type} {message : String} {told? : RunEvent → Option α}
    {write : α → LogRecord}
    (h : ∀ event, Option.guard (fun record => record.message == message)
      (Event.run event).record = (told? event).map write) (events : List RunEvent) :
    bearing message (events.map (fun event => (Event.run event).record)) =
      (events.filterMap told?).map write := by
  unfold bearing
  rw [← List.filterMap_eq_filter, List.filterMap_map, List.map_filterMap]
  exact List.filterMap_congr (fun event _ => h event)

/-- The record of a pulled token. -/
def pulled (kind : TokenKind) (depth : Nat) : LogRecord :=
  ⟨.trace, "token", [("kind", .bare kind.name), ("depth", .number depth)]⟩

/-- The record of a name that is taken away. -/
def found (name : String) (remaining : Nat) : LogRecord :=
  ⟨.debug, "required property found", [("name", .quoted name), ("remaining", .number remaining)]⟩

/-- The record of the end of a run. -/
def finished (tokens : Nat) (reachedEnd : Bool) (missing : Nat) : LogRecord :=
  ⟨.debug, "stream validation finished",
    [("tokens", .number tokens), ("reached_end", .bool reachedEnd), ("missing", .number missing)]⟩

variable (events : List RunEvent)

theorem bearing_token :
    bearing "token" (events.map (fun event => (Event.run event).record)) =
      (events.filterMap RunEvent.token?).map (fun (kind, depth) => pulled kind depth) := by
  apply bearing_record
  intro event
  cases event <;> rfl

theorem bearing_found :
    bearing "required property found" (events.map (fun event => (Event.run event).record)) =
      (events.filterMap RunEvent.found?).map (fun (name, remaining) => found name remaining) := by
  apply bearing_record
  intro event
  cases event <;> rfl

theorem bearing_finished :
    bearing "stream validation finished" (events.map (fun event => (Event.run event).record)) =
      (events.filterMap RunEvent.finished?).map
        (fun (tokens, reachedEnd, missing) => finished tokens reachedEnd missing) := by
  apply bearing_record
  intro event
  cases event <;> rfl

/-- No event has another message. -/
theorem message_record (event : RunEvent) :
    (Event.run event).record.message ∈
      ["token", "required property found", "stream validation finished"] := by
  cases event <;> simp [Event.record]

end LogRecord

/-- **What the log of a run tells of its outcome**, if the run succeeds. -/
structure LogAccounts {σ : Type} [TokenSource σ] (options : RunOptions) (outstanding : Outstanding)
    (source : σ) (outcome : RunOutcome) (records : List LogRecord) : Prop where
  /-- The tokens of the counted pulls, in order. -/
  pulled : LogRecord.bearing "token" records =
    (TokenSource.firstTokens source outcome.tokens).map
      (fun token => .pulled token.kind token.depth)
  /-- There is one for each counted pull, since a source gives a token where it tells a kind. -/
  counted : LawfulTokenSource σ → (LogRecord.bearing "token" records).length = outcome.tokens
  /-- The outstanding names that admitted keys offer, in the order in which they occur first,
  with one name less left from record to record. -/
  found : LogRecord.bearing "required property found" records =
    (outstanding.takenNames options.scope (TokenSource.firstTokens source outcome.tokens)).mapIdx
      (fun index name => .found name (outstanding.remaining - (index + 1)))
  /-- Behind the last of them the missing names are left. -/
  left : (LogRecord.bearing "required property found" records).length +
    outcome.outstanding.remaining = outstanding.remaining
  /-- The names of these records and the ones that are missing are the names at the start. -/
  names : outstanding.names.Perm
    (outstanding.takenNames options.scope (TokenSource.firstTokens source outcome.tokens) ++
      outcome.outstanding.names)
  /-- The end is told once. -/
  finished : LogRecord.bearing "stream validation finished" records =
    [.finished outcome.tokens outcome.reachedEnd outcome.outstanding.remaining]
  /-- It is told behind all the rest. -/
  last : records.getLast?.map LogRecord.message = some "stream validation finished"
  nothingElse : ∀ record ∈ records, record.message ∈
    ["token", "required property found", "stream validation finished"]

namespace Outstanding

/-- The log of some tokens and of the outcome of the run that pulls them. -/
def accountLog (outstanding : Outstanding) (scope : MatchScope) (tokens : List Token)
    (outcome : RunOutcome) : List LogRecord :=
  (outstanding.account scope tokens ++ RunOutcome.closing (.ok outcome)).map
    (fun event => (Event.run event).record)

section AccountLog

variable {outstanding : Outstanding} (scope : MatchScope) (tokens : List Token)
  (outcome : RunOutcome)

theorem pulled_accountLog :
    LogRecord.bearing "token" (outstanding.accountLog scope tokens outcome) =
      tokens.map (fun token => .pulled token.kind token.depth) := by
  have htold : (outstanding.account scope tokens ++ RunOutcome.closing (.ok outcome)).filterMap
      RunEvent.token? = tokens.map (fun token => (token.kind, token.depth)) := by
    rw [List.filterMap_append, tokens_account]
    exact List.append_nil _
  rw [accountLog, LogRecord.bearing_token, htold, List.map_map]
  rfl

theorem found_accountLog (hnodup : outstanding.names.Nodup) :
    LogRecord.bearing "required property found" (outstanding.accountLog scope tokens outcome) =
      (outstanding.takenNames scope tokens).mapIdx
        (fun index name => .found name (outstanding.remaining - (index + 1))) := by
  have htold : (outstanding.account scope tokens ++ RunOutcome.closing (.ok outcome)).filterMap
      RunEvent.found? = (outstanding.takenNames scope tokens).mapIdx
        (fun index name => (name, outstanding.remaining - (index + 1))) := by
    rw [List.filterMap_append, found_account hnodup]
    exact List.append_nil _
  rw [accountLog, LogRecord.bearing_found, htold, List.mapIdx_eq_zipIdx_map,
    List.mapIdx_eq_zipIdx_map, List.map_map]
  rfl

theorem finished_accountLog :
    LogRecord.bearing "stream validation finished" (outstanding.accountLog scope tokens outcome) =
      [.finished outcome.tokens outcome.reachedEnd outcome.outstanding.remaining] := by
  rw [accountLog, LogRecord.bearing_finished, List.filterMap_append, finished_account]
  rfl

theorem last_accountLog :
    (outstanding.accountLog scope tokens outcome).getLast?.map LogRecord.message =
      some "stream validation finished" := by
  simp [accountLog, RunOutcome.closing, Event.record]

end AccountLog

variable {σ : Type} [TokenSource σ] {outstanding : Outstanding} {options : RunOptions}
  {source : σ} {outcome : RunOutcome}

/-- The log of the tokens that are pulled tells the outcome. -/
theorem logAccounts_accountLog (hnodup : outstanding.names.Nodup)
    (hlength : LawfulTokenSource σ →
      (TokenSource.firstTokens source outcome.tokens).length = outcome.tokens)
    (hleft : outcome.outstanding = outstanding.afterFirst options.scope source outcome.tokens) :
    LogAccounts options outstanding source outcome
      (outstanding.accountLog options.scope (TokenSource.firstTokens source outcome.tokens)
        outcome) := by
  have hnames : outstanding.names.Perm
      (outstanding.takenNames options.scope (TokenSource.firstTokens source outcome.tokens) ++
        outcome.outstanding.names) := by
    rw [hleft]
    exact perm_takenNames hnodup _
  exact
    { pulled := pulled_accountLog options.scope _ outcome
      counted := by
        intro hlaw
        rw [pulled_accountLog, List.length_map, hlength hlaw]
      found := found_accountLog options.scope _ outcome hnodup
      left := by
        rw [found_accountLog options.scope _ outcome hnodup, List.length_mapIdx]
        show _ + outcome.outstanding.names.length = outstanding.names.length
        rw [hnames.length_eq, List.length_append]
      names := hnames
      finished := finished_accountLog options.scope _ outcome
      last := last_accountLog options.scope _ outcome
      nothingElse := by
        intro record hrecord
        obtain ⟨event, -, rfl⟩ := List.mem_map.mp hrecord
        exact LogRecord.message_record event }

/-- **The log of a run accounts for its outcome**: if the run succeeds one can read off it what
was pulled, found and left, and if it fails it is not reported to have finished.  Names that are
outstanding are distinct, since `ofNames` drops copies and no token adds a name. -/
theorem logAccounts_run (hnodup : outstanding.names.Nodup) (options : RunOptions) (source : σ) :
    (∀ outcome, (outstanding.run options source).result = .ok outcome →
      LogAccounts options outstanding source outcome (outstanding.run options source).log) ∧
    ∀ error, (outstanding.run options source).result = .error error →
      LogRecord.bearing "stream validation finished" (outstanding.run options source).log = [] := by
  obtain ⟨n, hevents, hlength, houtcome⟩ :=
    Progress.exists_account options { outstanding := outstanding } source
  have hlog : (outstanding.run options source).log =
      (outstanding.account options.scope (TokenSource.firstTokens source n) ++
        RunOutcome.closing (outstanding.run options source).result).map
          (fun event => (Event.run event).record) := by
    rw [Run.log_eq]
    exact congrArg (List.map _) hevents
  constructor
  · intro outcome hresult
    obtain ⟨htokens, hleft⟩ := houtcome outcome hresult
    obtain rfl : outcome.tokens = n := by
      rw [htokens]
      exact Nat.zero_add n
    rw [hlog, hresult]
    exact logAccounts_accountLog hnodup hlength hleft
  · intro error hresult
    rw [hlog, hresult, LogRecord.bearing_finished, List.filterMap_append, finished_account]
    rfl

/-- In `{"b":{"a":1}}` both names are found, and the run stops with the second one. -/
theorem logAccounts_run_inner :
    LogAccounts ⟨.anywhere, true⟩ (ofNames ["a", "b"])
      (Replay.mk ((Json.object [("b", .object [("a", .number "1")])]).tokens 0) none)
      ⟨⟨[]⟩, 4, false⟩
      [.pulled (.startOf .object) 0, .pulled .fieldName 1, .found "b" 1,
        .pulled (.startOf .object) 1, .pulled .fieldName 2, .found "a" 0, .finished 4 false 0] := by
  let json : Json := .object [("b", .object [("a", .number "1")])]
  have hnodup : (ofNames ["a", "b"]).names.Nodup := by
    decide
  have hresult : ((ofNames ["a", "b"]).run ⟨.anywhere, true⟩
      (Replay.mk (json.tokens 0) none)).result = .ok ⟨⟨[]⟩, 4, false⟩ := by
    cbv
  have haccounts := (logAccounts_run hnodup ⟨.anywhere, true⟩
    (Replay.mk (json.tokens 0) none)).1 _ hresult
  have hlog : ((ofNames ["a", "b"]).run ⟨.anywhere, true⟩ (Replay.mk (json.tokens 0) none)).log =
      [.pulled (.startOf .object) 0, .pulled .fieldName 1, .found "b" 1,
        .pulled (.startOf .object) 1, .pulled .fieldName 2, .found "a" 0, .finished 4 false 0] := by
    cbv
  rwa [hlog] at haccounts

end Outstanding
end RequiredKeys
