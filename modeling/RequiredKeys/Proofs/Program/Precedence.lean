import RequiredKeys.Proofs.Json.ReadBack
import RequiredKeys.Proofs.Program.Answer
import RequiredKeys.Proofs.Requirement.Composition

/-!
# Which failure is reported

A check has five stages: settings, opening the document, loading the schema, its clause, and the
document itself.  `FailsFirst` says which of them is the first to fail, and with what, one rule
for each stage; the rule of a stage asks nothing of the stages behind it.  `Precedence` says that
this failure is the whole answer, so that nothing a later stage would have looked at can be told
from it.

The document is opened before the schema is loaded, but read behind it.  What is wrong with its
text, or with reading it, is found out only by a run that asks for it (`Progress.Asks`).
-/

namespace RequiredKeys

/-! ## What a run asks for -/

namespace Progress

variable {σ : Type} [TokenSource σ] {options : RunOptions} {progress : Progress} {source : σ}

/-- A run goes on as long as it is told to read everything, or has a name outstanding. -/
def GoesOn (options : RunOptions) (progress : Progress) : Prop :=
  ¬ (options.stopWhenSatisfied = true ∧ progress.outstanding.names = [])

/-- The run that begins here asks its source for a token and is given this answer. -/
inductive Asks (options : RunOptions) :
    Progress → σ → Except StreamError (Option TokenKind) → Prop
  | now {progress : Progress} {source rest : σ} {answer : Except StreamError (Option TokenKind)}
      (hgoes : GoesOn options progress) (hnext : TokenSource.next source = (answer, rest)) :
      Asks options progress source answer
  | later {progress : Progress} {source rest : σ} {kind : TokenKind}
      {answer : Except StreamError (Option TokenKind)} (hgoes : GoesOn options progress)
      (hnext : TokenSource.next source = (.ok (some kind), rest))
      (hasks : Asks options (progress.advance options.scope (TokenSource.current rest)) rest
        answer) :
      Asks options progress source answer

theorem goesOn_iff : GoesOn options progress ↔
    (options.stopWhenSatisfied && progress.outstanding.isSatisfied) = false := by
  simp [GoesOn, Outstanding.isSatisfied]

theorem not_goesOn_iff : ¬ GoesOn options progress ↔
    (options.stopWhenSatisfied && progress.outstanding.isSatisfied) = true := by
  simp [goesOn_iff]

theorem Asks.goesOn {answer : Except StreamError (Option TokenKind)}
    (h : Asks options progress source answer) : GoesOn options progress := by
  cases h with
  | now hgoes hnext => exact hgoes
  | later hgoes hnext hasks => exact hgoes

/-- **A run fails exactly if it is given a failure**, and then with that one. -/
theorem result_eq_error_iff {error : StreamError} :
    (progress.run options source).result = .error error ↔
      Asks options progress source (.error error) := by
  induction progress, source using @run_induction σ _ options with
  | stops progress source hstop =>
      rw [run_of_stop hstop]
      constructor
      · exact nofun
      · intro hasks
        exact absurd hasks.goesOn (not_goesOn_iff.mpr hstop)
  | fails progress source found rest hgoes hnext =>
      rw [run_of_error hgoes hnext, Except.error.injEq]
      constructor
      · rintro rfl
        exact .now (goesOn_iff.mpr hgoes) hnext
      · intro hasks
        cases hasks with
        | now _ hother => simpa [hnext] using congrArg Prod.fst hother
        | later _ hother _ => simp [hnext] at hother
  | ends progress source rest hgoes hnext =>
      rw [run_of_end hgoes hnext]
      constructor
      · exact nofun
      · intro hasks
        cases hasks with
        | now _ hother => simp [hnext] at hother
        | later _ hother _ => simp [hnext] at hother
  | gives progress source kind rest hgoes hnext ih =>
      rw [run_of_token hgoes hnext, ih]
      constructor
      · exact .later (goesOn_iff.mpr hgoes) hnext
      · intro hasks
        cases hasks with
        | now _ hother => simp [hnext] at hother
        | later _ hother hlater =>
            obtain ⟨-, rfl⟩ : _ ∧ rest = _ := by simpa [hnext] using hother
            exact hlater

end Progress

/-! ## Stages -/

/-- The stages of a check. -/
inductive Stage
  | settings
  | opening
  | loading
  | clause
  | streaming
  deriving DecidableEq, Repr

/-- All stages but the last succeed: a document is open, and it is known how to run over it and
which names are required. -/
inductive Reaches (surroundings : Surroundings) :
    Invocation → Feed → RunOptions → List String → Prop
  | intro {settingsPath : Option Path} {schemaPath document : Path} {topLevel readAll : Bool}
      {settings : Settings} {feed : Feed} {schema : Json} {names : Option (List String)}
      (hsettings : Settings.loadOrDefault surroundings.disk settingsPath = .ok settings)
      (hdocument : surroundings.openDocument document = .ok feed)
      (hschema : surroundings.disk.loadSchema schemaPath = .ok schema)
      (hnames : (Clause.ofSchema schema).names? = .ok names) :
      Reaches surroundings ⟨settingsPath, .check schemaPath topLevel readAll document⟩ feed
        ⟨if topLevel then .topLevel else settings.scope,
          if readAll then false else settings.stopWhenSatisfied⟩ (names.getD [])

/-- A stage of a check is the first to fail, with this kind, this code and this message. -/
inductive FailsFirst (surroundings : Surroundings) : Invocation → Stage → Failure → Prop
  | settings {settingsPath : Option Path} {schemaPath document : Path} {topLevel readAll : Bool}
      {error : SettingsError}
      (hsettings : Settings.loadOrDefault surroundings.disk settingsPath = .error error) :
      FailsFirst surroundings ⟨settingsPath, .check schemaPath topLevel readAll document⟩
        .settings ⟨.settings, error.message⟩
  | opening {settingsPath : Option Path} {schemaPath document : Path} {topLevel readAll : Bool}
      {settings : Settings} {cause : SystemError}
      (hsettings : Settings.loadOrDefault surroundings.disk settingsPath = .ok settings)
      (hfile : Arguments.isStandardInput document = false)
      (hlook : surroundings.disk.look document = .error cause) :
      FailsFirst surroundings ⟨settingsPath, .check schemaPath topLevel readAll document⟩
        .opening (Failure.unopened document cause)
  | loading {settingsPath : Option Path} {schemaPath document : Path} {topLevel readAll : Bool}
      {settings : Settings} {feed : Feed} {error : LoadError}
      (hsettings : Settings.loadOrDefault surroundings.disk settingsPath = .ok settings)
      (hdocument : surroundings.openDocument document = .ok feed)
      (hschema : surroundings.disk.loadSchema schemaPath = .error error) :
      FailsFirst surroundings ⟨settingsPath, .check schemaPath topLevel readAll document⟩
        .loading ⟨.load error.code, error.message⟩
  | clause {settingsPath : Option Path} {schemaPath document : Path} {topLevel readAll : Bool}
      {settings : Settings} {feed : Feed} {schema : Json} {error : ClauseError}
      (hsettings : Settings.loadOrDefault surroundings.disk settingsPath = .ok settings)
      (hdocument : surroundings.openDocument document = .ok feed)
      (hschema : surroundings.disk.loadSchema schemaPath = .ok schema)
      (hclause : Clause.ofSchema schema = .malformed error) :
      FailsFirst surroundings ⟨settingsPath, .check schemaPath topLevel readAll document⟩
        .clause ⟨.clause error.code, error.message⟩
  | streaming {invocation : Invocation} {feed : Feed} {options : RunOptions}
      {required : List String} {error : StreamError}
      (hreaches : Reaches surroundings invocation feed options required)
      (hrun : (Outstanding.run ⟨required⟩ options (Tokenizer.ofFeed feed)).result =
        .error error) :
      FailsFirst surroundings invocation .streaming ⟨.stream error.code, error.message⟩

/-- A command comes as far as this schema: its settings are read, the document of a check is
open, and the schema is loaded. -/
inductive Obtains (surroundings : Surroundings) : Invocation → Json → Prop
  | compile {settingsPath : Option Path} {schemaPath : Path} {settings : Settings} {schema : Json}
      (hsettings : Settings.loadOrDefault surroundings.disk settingsPath = .ok settings)
      (hschema : surroundings.disk.loadSchema schemaPath = .ok schema) :
      Obtains surroundings ⟨settingsPath, .compile schemaPath⟩ schema
  | check {settingsPath : Option Path} {schemaPath document : Path} {topLevel readAll : Bool}
      {settings : Settings} {feed : Feed} {schema : Json}
      (hsettings : Settings.loadOrDefault surroundings.disk settingsPath = .ok settings)
      (hdocument : surroundings.openDocument document = .ok feed)
      (hschema : surroundings.disk.loadSchema schemaPath = .ok schema) :
      Obtains surroundings ⟨settingsPath, .check schemaPath topLevel readAll document⟩ schema

/-! ## The first failure -/

/-- Opening fails where the system refuses it; reading comes later. -/
theorem Surroundings.openDocument_eq_error_iff {surroundings : Surroundings} {document : Path}
    {failure : Failure} :
    surroundings.openDocument document = .error failure ↔
      Arguments.isStandardInput document = false ∧
        ∃ cause, surroundings.disk.look document = .error cause ∧
          Failure.unopened document cause = failure := by
  unfold openDocument
  cases Arguments.isStandardInput document with
  | true => simp
  | false =>
      cases surroundings.disk.look document with
      | error cause => simp
      | ok content => cases content <;> simp [FileContent.read]

namespace OpensAlike

variable {one other : Surroundings} {document : Path}

end OpensAlike

theorem Clause.names?_eq_error_iff {clause : Clause} {error : ClauseError} :
    clause.names? = .error error ↔ clause = .malformed error := by
  cases clause <;> simp [names?]

/-- Against a well-formed clause a check is a run. -/
theorem check_of_names {schema : Json} {names : Option (List String)}
    (hnames : (Clause.ofSchema schema).names? = .ok names) (feed : Feed) (options : RunOptions) :
    check schema feed options = (Outstanding.run ⟨names.getD []⟩ options
      (Tokenizer.ofFeed feed)).result.mapError CheckError.stream := by
  unfold check Clause.runFeed
  rw [(Outstanding.ofClause_ofSchema hnames).1]
  rfl

/-- A check of the library fails by the clause, or else by the document. -/
theorem check_eq_error_iff {schema : Json} {feed : Feed} {options : RunOptions}
    {error : CheckError} :
    check schema feed options = .error error ↔
      (∃ cause, Clause.ofSchema schema = .malformed cause ∧ CheckError.clause cause = error) ∨
        ∃ names, (Clause.ofSchema schema).names? = .ok names ∧
          ∃ cause, (Outstanding.run ⟨names.getD []⟩ options (Tokenizer.ofFeed feed)).result =
            .error cause ∧ CheckError.stream cause = error := by
  cases hnames : (Clause.ofSchema schema).names? with
  | error cause =>
      rw [Clause.names?_eq_error_iff] at hnames
      simp [check, Clause.runFeed, hnames, Outstanding.ofClause, Except.map]
  | ok names =>
      have hclause (cause : ClauseError) : Clause.ofSchema schema ≠ .malformed cause := by
        rw [Ne, ← Clause.names?_eq_error_iff, hnames]
        simp
      rw [check_of_names hnames, mapError_eq_error_iff]
      simp [hclause]

namespace FailsFirst

variable {surroundings : Surroundings} {invocation : Invocation} {stage other : Stage}
  {failure reason : Failure}

theorem isCheck (h : FailsFirst surroundings invocation stage failure) :
    invocation.command.isCheck = true := by
  cases h with
  | streaming hreaches _ =>
      cases hreaches
      rfl
  | _ => rfl

/-- A check comes to a failure exactly if some stage is the first to fail with it. -/
theorem result_eq_error_iff (hcheck : invocation.command.isCheck = true) :
    invocation.result surroundings = .error failure ↔
      ∃ stage, FailsFirst surroundings invocation stage failure := by
  obtain ⟨settingsPath, command⟩ := invocation
  cases command with
  | compile schemaPath => nomatch hcheck
  | check schemaPath topLevel readAll document =>
      simp only [Invocation.result_check, bind_eq_error_iff, mapError_eq_error_iff,
        mapError_eq_ok_iff, check_eq_error_iff, runOptions_eq, reduceCtorEq, and_false,
        exists_false, or_false, Surroundings.openDocument_eq_error_iff]
      constructor
      · rintro (⟨error, hsettings, rfl⟩ | ⟨settings, hsettings, ⟨hfile, cause, hlook, rfl⟩ |
          ⟨feed, hdocument, ⟨error, hschema, rfl⟩ | ⟨schema, hschema, error,
            ⟨cause, hclause, rfl⟩ | ⟨names, hnames, cause, hrun, rfl⟩, rfl⟩⟩⟩)
        · exact ⟨_, .settings hsettings⟩
        · exact ⟨_, .opening hsettings hfile hlook⟩
        · exact ⟨_, .loading hsettings hdocument hschema⟩
        · exact ⟨_, .clause hsettings hdocument hschema hclause⟩
        · exact ⟨_, .streaming (.intro hsettings hdocument hschema hnames) hrun⟩
      · rintro ⟨stage, hfails⟩
        cases hfails with
        | settings hsettings => exact .inl ⟨_, hsettings, rfl⟩
        | opening hsettings hfile hlook =>
            exact .inr ⟨_, hsettings, .inl ⟨hfile, _, hlook, rfl⟩⟩
        | loading hsettings hdocument hschema =>
            exact .inr ⟨_, hsettings, .inr ⟨_, hdocument, .inl ⟨_, hschema, rfl⟩⟩⟩
        | clause hsettings hdocument hschema hclause =>
            exact .inr ⟨_, hsettings, .inr ⟨_, hdocument, .inr ⟨_, hschema, _,
              .inl ⟨_, hclause, rfl⟩, rfl⟩⟩⟩
        | streaming hreaches hrun =>
            cases hreaches with
            | intro hsettings hdocument hschema hnames =>
                exact .inr ⟨_, hsettings, .inr ⟨_, hdocument, .inr ⟨_, hschema, _,
                  .inr ⟨_, hnames, _, hrun, rfl⟩, rfl⟩⟩⟩

end FailsFirst

/-! ## The answer -/

/-- An execution answers with this code and this message, and nothing else. -/
structure Execution.Fails (execution : Execution) (failure : Failure) : Prop where
  exitCode_eq : execution.exitCode = 1
  output_eq : execution.output = Response.line (Response.failure failure)

theorem Execution.Fails.same {one other : Execution} {failure : Failure} (hone : one.Fails failure)
    (hother : other.Fails failure) :
    one.output = other.output ∧ one.exitCode = other.exitCode :=
  ⟨hone.output_eq.trans hother.output_eq.symm, hone.exitCode_eq.trans hother.exitCode_eq.symm⟩

section

variable {invocation : Invocation} {execute : Surroundings → Execution}
  {surroundings : Surroundings} {failure : Failure}

theorem Executes.fails_of_result (h : Executes invocation execute)
    (hresult : invocation.result surroundings = .error failure) :
    (execute surroundings).Fails failure := by
  rw [h.eq]
  constructor
  · rw [exitCode_ofInvocation, hresult]
    rfl
  · rw [output_ofInvocation, hresult]
    rfl

theorem FailsFirst.fails {stage : Stage} (h : FailsFirst surroundings invocation stage failure)
    (hexecutes : Executes invocation execute) : (execute surroundings).Fails failure :=
  hexecutes.fails_of_result ((FailsFirst.result_eq_error_iff h.isCheck).mpr ⟨stage, h⟩)

end

/-- Every command that obtains a schema with a malformed clause reports that clause. -/
theorem Obtains.fails {invocation : Invocation} {execute : Surroundings → Execution}
    {surroundings : Surroundings} {schema : Json} {error : ClauseError}
    (h : Obtains surroundings invocation schema) (hexecutes : Executes invocation execute)
    (hclause : Clause.ofSchema schema = .malformed error) :
    (execute surroundings).Fails ⟨.clause error.code, error.message⟩ := by
  cases h with
  | compile hsettings hschema =>
      apply hexecutes.fails_of_result
      rw [Invocation.result_compile, hsettings, hschema]
      show (Clause.ofSchema schema).names?.mapError Failure.ofClause >>= _ = _
      rw [hclause]
      rfl
  | check hsettings hdocument hschema =>
      exact (FailsFirst.clause hsettings hdocument hschema hclause).fails hexecutes

namespace Reaches

open Progress

variable {surroundings : Surroundings} {invocation : Invocation} {feed : Feed}
  {options : RunOptions} {required : List String}

/-- What is left of a check is its run. -/
theorem result_eq (h : Reaches surroundings invocation feed options required) :
    invocation.result surroundings = (do
      let outcome ← (Outstanding.run ⟨required⟩ options
        (Tokenizer.ofFeed feed)).result.mapError Failure.ofStream
      .ok (Response.ofOutcome outcome, !outcome.hasErrors)) := by
  cases h with
  | intro hsettings hdocument hschema hnames =>
      rw [Invocation.result_check, hsettings, hdocument, hschema]
      show (check _ _ (Command.runOptions _ _ _)).mapError Failure.ofCheck >>= _ = _
      rw [runOptions_eq, check_of_names hnames]
      cases (Outstanding.run _ _ (Tokenizer.ofFeed feed)).result with
      | error error => rfl
      | ok outcome => rfl

theorem isCheck (h : Reaches surroundings invocation feed options required) :
    invocation.command.isCheck = true := by
  cases h
  rfl

end Reaches

end RequiredKeys
