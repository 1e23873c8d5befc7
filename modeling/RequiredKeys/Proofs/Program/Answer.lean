import RequiredKeys.Files.Tree
import RequiredKeys.Program.Execution
import RequiredKeys.Proofs.Json.Writer

/-!
# One answer for every invocation

`Invocation.result` is a run without its log: data with a verdict, or the failure of the first
stage that fails.  For a check it is a chain of stages (`result_check`), of which the last is the
`check` of the library.

`Answer` says what is written for a result and which exit code goes with it.  The status and the
exit code are read off the response here and not off the result, as a script would do that has
only the output.
-/

namespace RequiredKeys

/-! ## Stages -/

theorem bind_eq_ok_iff {ε α β : Type} {first : Except ε α} {next : α → Except ε β} {result : β} :
    (first >>= next) = .ok result ↔ ∃ value, first = .ok value ∧ next value = .ok result := by
  cases first with
  | error error => simp [bind, Except.bind]
  | ok value => simp [bind, Except.bind]

theorem mapError_eq_ok_iff {ε ε' α : Type} {result : Except ε α} {f : ε → ε'} {value : α} :
    result.mapError f = .ok value ↔ result = .ok value := by
  cases result with
  | error error => exact ⟨nofun, nofun⟩
  | ok found =>
      show Except.ok found = Except.ok value ↔ _
      rw [Except.ok.injEq, Except.ok.injEq]

theorem bind_eq_error_iff {ε α β : Type} {first : Except ε α} {next : α → Except ε β} {error : ε} :
    (first >>= next) = .error error ↔
      first = .error error ∨ ∃ value, first = .ok value ∧ next value = .error error := by
  cases first with
  | error found => simp [bind, Except.bind]
  | ok value => simp [bind, Except.bind]

theorem mapError_eq_error_iff {ε ε' α : Type} {result : Except ε α} {f : ε → ε'} {error : ε'} :
    result.mapError f = .error error ↔ ∃ found, result = .error found ∧ f found = error := by
  cases result with
  | error found =>
      show Except.error (f found) = Except.error error ↔ _
      simp
  | ok value => exact ⟨nofun, fun ⟨_, hfound, _⟩ => nomatch hfound⟩

namespace Command

/-- Whether a command checks a document. -/
def isCheck : Command → Bool
  | compile _ => false
  | check _ _ _ _ => true

theorem result_runCompile (disk : Disk) (schemaPath : Path) :
    (runCompile disk schemaPath).result = (do
      let schema ← (disk.loadSchema schemaPath).mapError Failure.ofLoad
      let names ← (Clause.ofSchema schema).names?.mapError Failure.ofClause
      .ok (Response.ofNames names, true)) := by
  unfold runCompile
  cases disk.loadSchema schemaPath with
  | error error => rfl
  | ok schema =>
      show ((Clause.ofSchema schema).names?.mapError Failure.ofClause).map _ =
        (Clause.ofSchema schema).names?.mapError Failure.ofClause >>= _
      cases (Clause.ofSchema schema).names? with
      | error error => rfl
      | ok names => rfl

/-- What a run against a clause comes to is what `check` comes to. -/
theorem result_runClause (schema : Json) (feed : Feed) (options : RunOptions) :
    (runClause (Clause.ofSchema schema) feed options).result = (do
      let outcome ← (RequiredKeys.check schema feed options).mapError Failure.ofCheck
      .ok (Response.ofOutcome outcome, !outcome.hasErrors)) := by
  unfold runClause RequiredKeys.check
  cases (Clause.ofSchema schema).runFeed feed options with
  | error error => rfl
  | ok run =>
      obtain ⟨result, source, events⟩ := run
      cases result with
      | error error => rfl
      | ok outcome => rfl

theorem result_runCheck (disk : Disk) (schemaPath : Path) (feed : Feed) (options : RunOptions) :
    (runCheck disk schemaPath feed options).result = (do
      let schema ← (disk.loadSchema schemaPath).mapError Failure.ofLoad
      let outcome ← (RequiredKeys.check schema feed options).mapError Failure.ofCheck
      .ok (Response.ofOutcome outcome, !outcome.hasErrors)) := by
  unfold runCheck
  cases disk.loadSchema schemaPath with
  | error error => rfl
  | ok schema => exact result_runClause schema feed options

end Command

namespace Invocation

/-- What an invocation comes to: data with a verdict, or the failure of the first stage that
fails. -/
def result (invocation : Invocation) (surroundings : Surroundings) :
    Except Failure (Json × Bool) := do
  let settings ←
    (Settings.loadOrDefault surroundings.disk invocation.settings).mapError Failure.ofSettings
  (invocation.command.run settings surroundings).result

/-- The stages of a check. -/
theorem result_check (settingsPath : Option Path) (schemaPath document : Path)
    (topLevel readAll : Bool) (surroundings : Surroundings) :
    (Invocation.mk settingsPath (.check schemaPath topLevel readAll document)).result
        surroundings = (do
      let settings ←
        (Settings.loadOrDefault surroundings.disk settingsPath).mapError Failure.ofSettings
      let feed ← surroundings.openDocument document
      let schema ← (surroundings.disk.loadSchema schemaPath).mapError Failure.ofLoad
      let outcome ← (check schema feed (Command.runOptions settings topLevel readAll)).mapError
        Failure.ofCheck
      .ok (Response.ofOutcome outcome, !outcome.hasErrors)) := by
  unfold result
  dsimp only
  congr 1
  funext settings
  rw [Command.run]
  cases surroundings.openDocument document with
  | error failure => rfl
  | ok feed => exact Command.result_runCheck _ _ _ _

/-- The stages of a compilation. -/
theorem result_compile (settingsPath : Option Path) (schemaPath : Path)
    (surroundings : Surroundings) :
    (Invocation.mk settingsPath (.compile schemaPath)).result surroundings = (do
      let _ ← (Settings.loadOrDefault surroundings.disk settingsPath).mapError Failure.ofSettings
      let schema ← (surroundings.disk.loadSchema schemaPath).mapError Failure.ofLoad
      let names ← (Clause.ofSchema schema).names?.mapError Failure.ofClause
      .ok (Response.ofNames names, true)) := by
  unfold result
  dsimp only
  congr 1
  funext settings
  exact Command.result_runCompile _ _

end Invocation

/-- An execution writes the response to a result and ends with its exit code. -/
theorem respond_result (invocation : Invocation) (surroundings : Surroundings) :
    Execution.respond (invocation.result surroundings) =
      ((Execution.ofInvocation invocation surroundings).exitCode,
        (Execution.ofInvocation invocation surroundings).output) := by
  unfold Execution.ofInvocation Invocation.result
  cases Settings.loadOrDefault surroundings.disk invocation.settings with
  | error error => rfl
  | ok settings => rfl

/-! ## What succeeds -/

/-- The schema that a command names compiles to these names. -/
inductive Compiles (surroundings : Surroundings) : Invocation → Option (List String) → Prop
  | intro {settingsPath : Option Path} {schemaPath : Path} {settings : Settings} {schema : Json}
      {names : Option (List String)}
      (hsettings : Settings.loadOrDefault surroundings.disk settingsPath = .ok settings)
      (hschema : surroundings.disk.loadSchema schemaPath = .ok schema)
      (hnames : (Clause.ofSchema schema).names? = .ok names) :
      Compiles surroundings ⟨settingsPath, .compile schemaPath⟩ names

/-- The library checks what a command names, with this outcome. -/
inductive Checks (surroundings : Surroundings) : Invocation → RunOutcome → Prop
  | intro {settingsPath : Option Path} {schemaPath document : Path} {topLevel readAll : Bool}
      {settings : Settings} {feed : Feed} {schema : Json} {outcome : RunOutcome}
      (hsettings : Settings.loadOrDefault surroundings.disk settingsPath = .ok settings)
      (hdocument : surroundings.openDocument document = .ok feed)
      (hschema : surroundings.disk.loadSchema schemaPath = .ok schema)
      (hcheck : check schema feed
        ⟨if topLevel then .topLevel else settings.scope,
          if readAll then false else settings.stopWhenSatisfied⟩ = .ok outcome) :
      Checks surroundings ⟨settingsPath, .check schemaPath topLevel readAll document⟩ outcome

theorem Checks.isCheck {surroundings : Surroundings} {invocation : Invocation}
    {outcome : RunOutcome} (h : Checks surroundings invocation outcome) :
    invocation.command.isCheck = true := by
  cases h
  rfl

theorem Compiles.isCheck {surroundings : Surroundings} {invocation : Invocation}
    {names : Option (List String)} (h : Compiles surroundings invocation names) :
    invocation.command.isCheck = false := by
  cases h
  rfl

theorem runOptions_eq (settings : Settings) (topLevel readAll : Bool) :
    Command.runOptions settings topLevel readAll =
      ⟨if topLevel then .topLevel else settings.scope,
        if readAll then false else settings.stopWhenSatisfied⟩ := by
  cases readAll <;> simp [Command.runOptions, Settings.runOptions]

/-- A result is successful exactly if all stages are. -/
theorem Invocation.result_eq_ok_iff {invocation : Invocation} {surroundings : Surroundings}
    {answer : Json × Bool} :
    invocation.result surroundings = .ok answer ↔
      (∃ names, Compiles surroundings invocation names ∧ (Response.ofNames names, true) = answer) ∨
        ∃ outcome, Checks surroundings invocation outcome ∧
          (Response.ofOutcome outcome, !outcome.hasErrors) = answer := by
  obtain ⟨settingsPath, command⟩ := invocation
  cases command with
  | compile schemaPath =>
      simp only [result_compile, bind_eq_ok_iff, mapError_eq_ok_iff, Except.ok.injEq]
      constructor
      · rintro ⟨settings, hsettings, schema, hschema, names, hnames, hanswer⟩
        exact .inl ⟨names, .intro hsettings hschema hnames, hanswer⟩
      · rintro (⟨names, hcompiles, hanswer⟩ | ⟨outcome, hchecks, -⟩)
        · cases hcompiles with
          | intro hsettings hschema hnames =>
              exact ⟨_, hsettings, _, hschema, names, hnames, hanswer⟩
        · nomatch hchecks
  | check schemaPath topLevel readAll document =>
      simp only [result_check, bind_eq_ok_iff, mapError_eq_ok_iff, Except.ok.injEq, runOptions_eq]
      constructor
      · rintro ⟨settings, hsettings, feed, hdocument, schema, hschema, outcome, hcheck, hanswer⟩
        exact .inr ⟨outcome, .intro hsettings hdocument hschema hcheck, hanswer⟩
      · rintro (⟨names, hcompiles, -⟩ | ⟨outcome, hchecks, hanswer⟩)
        · nomatch hcompiles
        · cases hchecks with
          | intro hsettings hdocument hschema hcheck =>
              exact ⟨_, hsettings, _, hdocument, _, hschema, outcome, hcheck, hanswer⟩

/-! ## Responses -/

namespace Response

/-- What stands in a response under its status. -/
def HasStatus (response : Json) (word : String) : Prop :=
  response.member? "status" = some (.string word)

/-- A field of the data of a response. -/
def field? (response : Json) (name : String) : Option Json :=
  (response.member? "data").bind (fun data => data.member? name)

/-- The data of a response are those of an outcome. -/
structure Reports (response : Json) (outcome : RunOutcome) : Prop where
  valid : field? response "valid" = some (.bool !outcome.hasErrors)
  missing : field? response "missing" = some (.ofStrings outcome.outstanding.names)
  tokens : field? response "tokens" = some (.ofNat outcome.tokens)
  reachedEnd : field? response "reached_end" = some (.bool outcome.reachedEnd)

/-- The data of a response are the names of a schema. -/
structure Lists (response : Json) (names : Option (List String)) : Prop where
  absent : field? response "absent" = some (.bool names.isNone)
  required : field? response "required" = some (.ofStrings (names.getD []))

theorem reports_success (outcome : RunOutcome) :
    Reports (success (ofOutcome outcome)) outcome :=
  ⟨rfl, rfl, rfl, rfl⟩

theorem lists_success (names : Option (List String)) : Lists (success (ofNames names)) names :=
  ⟨rfl, rfl⟩

theorem hasStatus_success (data : Json) : HasStatus (success data) "ok" := rfl

theorem hasStatus_failure (reason : Failure) : HasStatus (failure reason) "error" := rfl

theorem HasStatus.word_eq {response : Json} {word other : String} (h : HasStatus response word)
    (hother : HasStatus response other) : word = other :=
  Json.string.inj (Option.some.inj (h.symm.trans hother))

open Json

theorem writable_ofNames (names : Option (List String)) : Writable (ofNames names) := by
  simp [ofNames]

theorem writable_ofOutcome (outcome : RunOutcome) : Writable (ofOutcome outcome) := by
  simp [ofOutcome]

theorem writable_success {data : Json} (h : Writable data) : Writable (success data) := by
  simp [success, h]

theorem writable_failure (reason : Failure) : Writable (failure reason) := by
  simp [failure]

end Response

open Response

/-- **What a run of the program writes**: one line of text that holds a response, and an exit code
that says no more than the response. -/
structure Answer (invocation : Invocation) (surroundings : Surroundings) (execution : Execution)
    (text : String) (response : Json) : Prop where
  output_eq : execution.output = text ++ "\n"
  /-- The line feed at the end is the only one. -/
  oneLine : '\n' ∉ text.toList
  writes : ValueText (encoded text.toList) response
  kind : response.kind = .object
  status : HasStatus response "ok" ∨ HasStatus response "error"
  exitCode_eq_zero_iff : execution.exitCode = 0 ↔ HasStatus response "ok" ∧
    (invocation.command.isCheck = true → field? response "valid" = some (.bool true))
  exitCode_le_one : execution.exitCode ≤ 1
  succeeds_iff : HasStatus response "ok" ↔
    (∃ names, Compiles surroundings invocation names) ∨
      ∃ outcome, Checks surroundings invocation outcome
  lists : ∀ names, Compiles surroundings invocation names → Lists response names
  reports : ∀ outcome, Checks surroundings invocation outcome → Reports response outcome
  valid_iff : HasStatus response "ok" → invocation.command.isCheck = true →
    (field? response "valid" = some (.bool true) ↔ field? response "missing" = some (.array []))

section

variable {invocation : Invocation} {surroundings : Surroundings}

theorem exitCode_ofInvocation : (Execution.ofInvocation invocation surroundings).exitCode =
    (Execution.respond (invocation.result surroundings)).1 := by
  rw [respond_result]

theorem output_ofInvocation : (Execution.ofInvocation invocation surroundings).output =
    (Execution.respond (invocation.result surroundings)).2 := by
  rw [respond_result]

theorem answer_of_error {reason : Failure} (h : invocation.result surroundings = .error reason) :
    Answer invocation surroundings (Execution.ofInvocation invocation surroundings)
      (failure reason).compact (failure reason) := by
  have hstatus : ¬ HasStatus (failure reason) "ok" := by
    intro hok
    exact absurd (hok.word_eq (hasStatus_failure reason)) (by decide)
  have hfails (answer : Json × Bool) : invocation.result surroundings ≠ .ok answer := by
    simp [h]
  have hcompiles (names : Option (List String)) : ¬ Compiles surroundings invocation names :=
    fun hnames => hfails _ (Invocation.result_eq_ok_iff.mpr (.inl ⟨names, hnames, rfl⟩))
  have hchecks (outcome : RunOutcome) : ¬ Checks surroundings invocation outcome :=
    fun houtcome => hfails _ (Invocation.result_eq_ok_iff.mpr (.inr ⟨outcome, houtcome, rfl⟩))
  exact
    { output_eq := by rw [output_ofInvocation, h]; rfl
      oneLine := (Json.unbroken_compact (writable_failure reason)).lineFeed_not_mem
      writes := Json.valueText_compact (writable_failure reason)
      kind := rfl
      status := .inr (hasStatus_failure reason)
      exitCode_eq_zero_iff := by simp [exitCode_ofInvocation, h, Execution.respond, hstatus]
      exitCode_le_one := by simp [exitCode_ofInvocation, h, Execution.respond]
      succeeds_iff := by simp [hstatus, hcompiles, hchecks]
      lists := fun names hnames => (hcompiles names hnames).elim
      reports := fun outcome houtcome => (hchecks outcome houtcome).elim
      valid_iff := fun hok => (hstatus hok).elim }

/-- A verdict stands in the response of a check; a compilation has none to give. -/
theorem verdict_iff {data : Json} {valid : Bool}
    (h : invocation.result surroundings = .ok (data, valid)) :
    valid = true ↔ (invocation.command.isCheck = true →
      field? (success data) "valid" = some (.bool true)) := by
  obtain ⟨names, hcompiles, hanswer⟩ | ⟨outcome, hchecks, hanswer⟩ :=
    Invocation.result_eq_ok_iff.mp h
  · obtain ⟨rfl, rfl⟩ := Prod.mk.inj hanswer
    simp [hcompiles.isCheck]
  · obtain ⟨rfl, rfl⟩ := Prod.mk.inj hanswer
    simp [hchecks.isCheck, (reports_success outcome).valid]

/-- No name is missing exactly if the verdict is good. -/
theorem valid_iff_missing (outcome : RunOutcome) :
    field? (success (ofOutcome outcome)) "valid" = some (.bool true) ↔
      field? (success (ofOutcome outcome)) "missing" = some (.array []) := by
  rw [(reports_success outcome).valid, (reports_success outcome).missing]
  simp [RunOutcome.hasErrors, Outstanding.hasErrors, Json.ofStrings]

theorem answer_of_ok {data : Json} {valid : Bool}
    (h : invocation.result surroundings = .ok (data, valid)) :
    Answer invocation surroundings (Execution.ofInvocation invocation surroundings)
      (success data).compact (success data) := by
  have hcases := Invocation.result_eq_ok_iff.mp h
  have hdata : Json.Writable data := by
    obtain ⟨names, -, hanswer⟩ | ⟨outcome, -, hanswer⟩ := hcases
    · obtain ⟨rfl, -⟩ := Prod.mk.inj hanswer
      exact writable_ofNames names
    · obtain ⟨rfl, -⟩ := Prod.mk.inj hanswer
      exact writable_ofOutcome outcome
  have hsame (answer : Json × Bool) (hanswer : invocation.result surroundings = .ok answer) :
      answer.1 = data :=
    congrArg Prod.fst (Except.ok.inj (hanswer.symm.trans h))
  exact
    { output_eq := by rw [output_ofInvocation, h]; rfl
      oneLine := (Json.unbroken_compact (writable_success hdata)).lineFeed_not_mem
      writes := Json.valueText_compact (writable_success hdata)
      kind := rfl
      status := .inl (hasStatus_success data)
      exitCode_eq_zero_iff := by
        rw [← verdict_iff h, exitCode_ofInvocation, h]
        cases valid <;> simp [Execution.respond, hasStatus_success]
      exitCode_le_one := by
        rw [exitCode_ofInvocation, h]
        cases valid <;> simp [Execution.respond]
      succeeds_iff := by
        refine iff_of_true (hasStatus_success data) (hcases.imp ?_ ?_)
        · rintro ⟨names, hcompiles, -⟩
          exact ⟨names, hcompiles⟩
        · rintro ⟨outcome, hchecks, -⟩
          exact ⟨outcome, hchecks⟩
      lists := by
        intro names hcompiles
        rw [← hsame _ (Invocation.result_eq_ok_iff.mpr (.inl ⟨names, hcompiles, rfl⟩))]
        exact lists_success names
      reports := by
        intro outcome hchecks
        rw [← hsame _ (Invocation.result_eq_ok_iff.mpr (.inr ⟨outcome, hchecks, rfl⟩))]
        exact reports_success outcome
      valid_iff := by
        intro _ hcheck
        obtain ⟨names, hcompiles, -⟩ | ⟨outcome, -, hanswer⟩ := hcases
        · rw [hcompiles.isCheck] at hcheck
          contradiction
        · obtain ⟨rfl, -⟩ := Prod.mk.inj hanswer
          exact valid_iff_missing outcome }

/-- Every invocation is answered, whatever bytes its paths hold. -/
theorem exists_answer (invocation : Invocation) (surroundings : Surroundings) :
    ∃ text response, Answer invocation surroundings
      (Execution.ofInvocation invocation surroundings) text response := by
  cases h : invocation.result surroundings with
  | error reason => exact ⟨_, _, answer_of_error h⟩
  | ok answer =>
      obtain ⟨data, valid⟩ := answer
      exact ⟨_, _, answer_of_ok h⟩

end

/-- How the program is given an invocation: by itself, or by a command line that is understood so.
A command line is a list of texts here; paths that are no texts come in by the invocation. -/
inductive Executes (invocation : Invocation) : (Surroundings → Execution) → Prop
  | direct : Executes invocation (Execution.ofInvocation invocation)
  | parsed {arguments : List String} (hparse : Arguments.parse arguments = .ok invocation) :
      Executes invocation (Execution.run arguments)

theorem Executes.eq {invocation : Invocation} {execute : Surroundings → Execution}
    (h : Executes invocation execute) (surroundings : Surroundings) :
    execute surroundings = Execution.ofInvocation invocation surroundings := by
  cases h with
  | direct => rfl
  | parsed hparse => rw [Execution.run, hparse]

namespace Execution

/-- **Every command line that is understood gives one answer.**  A command line is a list of texts
here; paths that are no texts come in by the invocation itself. -/
theorem run_answers (invocation : Invocation) (surroundings : Surroundings) :
    (∃ text response,
      Answer invocation surroundings (ofInvocation invocation surroundings) text response) ∧
      ∀ arguments, Arguments.parse arguments = .ok invocation → ∃ text response,
        Answer invocation surroundings (run arguments surroundings) text response := by
  refine ⟨exists_answer invocation surroundings, ?_⟩
  intro arguments hparse
  have hrun : run arguments surroundings = ofInvocation invocation surroundings := by
    rw [run, hparse]
  rw [hrun]
  exact exists_answer invocation surroundings

/-- A line feed in the name of a schema that is not there. -/
theorem run_answers_lineFeed :
    ∃ text response, ValueText (encoded text.toList) response ∧ '\n' ∉ text.toList ∧
      (run ["compile", "--schema=a\nb"] { disk := FileTree.empty.disk }).output =
        text ++ "\n" := by
  have hparse : Arguments.parse ["compile", "--schema=a\nb"] =
      .ok ⟨none, .compile (Path.ofString "a\nb")⟩ := rfl
  obtain ⟨text, response, h⟩ := (run_answers _ { disk := FileTree.empty.disk }).2 _ hparse
  exact ⟨text, response, h.writes, h.oneLine, h.output_eq⟩

end Execution
end RequiredKeys
