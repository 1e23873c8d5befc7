import RequiredKeys.Proofs.Json.ReadBack
import RequiredKeys.Proofs.Program.Answer
import RequiredKeys.Proofs.Requirement.Clause

/-!
# Reading an answer back

What a command prints is one value for the reader of schemas too.  The data of a compilation are
again a schema, and it has the same names in the same order, so that compiling a file which holds
them prints the same line (`CompiledBack`).  The names that a check misses stand in its response
as they stand in its outcome (`MissingBack`).
-/

namespace RequiredKeys

open Json Response

/-- The reader of schemas takes a line for this value, with or without the line feed. -/
structure ReadsAs (line : String) (json : Json) : Prop where
  whole : read? (encoded line.toList) = some json
  trimmed : ∃ text, line = text ++ "\n" ∧ read? (encoded text.toList) = some json

/-- The line that a compilation has printed holds a schema with the same names. -/
structure CompiledBack (line : String) (names : List String) (response data : Json) : Prop where
  reads : ReadsAs line response
  data_eq : response.member? "data" = some data
  clause_eq : Clause.ofSchema data = .names names
  /-- Compiled from a file, the data give the same line. -/
  again : ∀ elsewhere settingsPath path settings execute,
    Settings.loadOrDefault elsewhere.disk settingsPath = .ok settings →
    elsewhere.disk.look path = .ok (.file (encoded data.compact.toList)) →
    Executes ⟨settingsPath, .compile path⟩ execute → (execute elsewhere).output = line

/-- The line that a check has printed holds the names that it misses. -/
structure MissingBack (line : String) (outcome : RunOutcome) (response : Json) : Prop where
  reads : ReadsAs line response
  missing : field? response "missing" = some (.array (outcome.outstanding.names.map .string))

/-! ## Responses as texts -/

theorem readsAs_line {response : Json} (hwritable : Writable response)
    (hfits : response.Fits Reader.maxNesting 0) : ReadsAs (Response.line response) response := by
  have hlineFeed : Blanks [Ascii.lineFeed] := blanks_cons.mpr ⟨rfl, blanks_nil⟩
  constructor
  · rw [Response.line, String.toList_append, encoded_append]
    exact read?_compact hwritable hfits hlineFeed
  · have hread := read?_compact hwritable hfits blanks_nil
    rw [List.append_nil] at hread
    exact ⟨response.compact, rfl, hread⟩

section

variable {limit depth : Nat}

theorem fits_success {data : Json} (h : data.Fits limit (depth + 1)) (hroom : depth + 1 ≤ limit) :
    (success data).Fits limit depth := by
  simp only [success, fits_object_iff, List.forall_mem_cons]
  exact ⟨hroom, h, fits_string_iff.mpr hroom, List.forall_mem_nil _⟩

theorem fits_ofNames (names : Option (List String)) (hroom : depth + 2 ≤ limit) :
    (ofNames names).Fits limit depth := by
  simp only [ofNames, fits_object_iff, List.forall_mem_cons]
  have hinside : depth + 1 ≤ limit := by omega
  exact ⟨hinside, fits_bool_iff.mpr hinside, fits_ofStrings_iff.mpr hroom, List.forall_mem_nil _⟩

theorem fits_ofOutcome {outcome : RunOutcome} (htokens : outcome.tokens < Nat.pow 2 64)
    (hroom : depth + 2 ≤ limit) : (ofOutcome outcome).Fits limit depth := by
  simp only [ofOutcome, fits_object_iff, List.forall_mem_cons]
  have hinside : depth + 1 ≤ limit := by omega
  exact ⟨hinside, fits_ofStrings_iff.mpr hroom, fits_bool_iff.mpr hinside,
    (fits_ofNat_iff htokens).mpr hinside, fits_bool_iff.mpr hinside, List.forall_mem_nil _⟩

end

/-! ## Schemas as texts -/

/-- A schema has the names that stand under the keyword, if these are distinct. -/
theorem ofSchema_of_member {schema : Json} {names : List String}
    (h : schema.member? Clause.keyword = some (.ofStrings names)) (hnodup : names.Nodup) :
    Clause.ofSchema schema = .names names :=
  (Clause.Says.names (member?_eq_some_iff.mp h) hnodup).ofSchema_eq

/-- A schema whose compact text stands in a file is compiled from there. -/
theorem compiles_of_look {surroundings : Surroundings} {settingsPath : Option Path} {path : Path}
    {settings : Settings} {schema : Json} {names : List String} (hwritable : Writable schema)
    (hfits : schema.Fits Reader.maxNesting 0) (hclause : Clause.ofSchema schema = .names names)
    (hsettings : Settings.loadOrDefault surroundings.disk settingsPath = .ok settings)
    (hlook : surroundings.disk.look path = .ok (.file (encoded schema.compact.toList))) :
    Compiles surroundings ⟨settingsPath, .compile path⟩ (some names) := by
  rw [← List.append_nil (encoded schema.compact.toList)] at hlook
  refine .intro hsettings (Disk.loadSchema_of_look hwritable hfits blanks_nil hlook) ?_
  rw [hclause]
  rfl

/-- Every row of distinct names is compiled from some file. -/
theorem compiles_ofStrings {surroundings : Surroundings} {settingsPath : Option Path} {path : Path}
    {settings : Settings} {names : List String} (hnodup : names.Nodup)
    (hsettings : Settings.loadOrDefault surroundings.disk settingsPath = .ok settings)
    (hlook : surroundings.disk.look path = .ok (.file
      (encoded (object [(Clause.keyword, .ofStrings names)]).compact.toList))) :
    Compiles surroundings ⟨settingsPath, .compile path⟩ (some names) := by
  refine compiles_of_look (by simp) ?_ (ofSchema_of_member rfl hnodup) hsettings hlook
  simp only [fits_object_iff, List.forall_mem_cons]
  exact ⟨by decide, fits_ofStrings_iff.mpr (by decide), List.forall_mem_nil _⟩

/-! ## Lines -/

section

variable {invocation : Invocation} {surroundings : Surroundings}
  {execute : Surroundings → Execution}

theorem Compiles.output_eq {names : Option (List String)} (hexecutes : Executes invocation execute)
    (h : Compiles surroundings invocation names) :
    (execute surroundings).output = Response.line (success (ofNames names)) := by
  rw [hexecutes.eq, output_ofInvocation, Invocation.result_eq_ok_iff.mpr (.inl ⟨names, h, rfl⟩)]
  rfl

theorem Checks.output_eq {outcome : RunOutcome} (hexecutes : Executes invocation execute)
    (h : Checks surroundings invocation outcome) :
    (execute surroundings).output = Response.line (success (ofOutcome outcome)) := by
  rw [hexecutes.eq, output_ofInvocation, Invocation.result_eq_ok_iff.mpr (.inr ⟨outcome, h, rfl⟩)]
  rfl

/-- The names that a compilation answers with are distinct. -/
theorem Compiles.nodup {names : List String} (h : Compiles surroundings invocation (some names)) :
    names.Nodup := by
  cases h with
  | intro _ _ hnames => exact (Outstanding.ofClause_ofSchema hnames).2

theorem Compiles.compiledBack {names : List String} (hexecutes : Executes invocation execute)
    (h : Compiles surroundings invocation (some names)) :
    CompiledBack (execute surroundings).output names (success (ofNames (some names)))
      (ofNames (some names)) := by
  have hwritable := writable_ofNames (some names)
  have hclause : Clause.ofSchema (ofNames (some names)) = .names names :=
    ofSchema_of_member rfl h.nodup
  rw [h.output_eq hexecutes]
  refine
    { reads := ?_
      data_eq := rfl
      clause_eq := hclause
      again := ?_ }
  · exact readsAs_line (writable_success hwritable)
      (fits_success (fits_ofNames _ (by decide)) (by decide))
  · intro elsewhere settingsPath path settings executeAgain hsettings hlook hagain
    exact (compiles_of_look hwritable (fits_ofNames _ (by decide)) hclause hsettings
      hlook).output_eq hagain

theorem Checks.missingBack {outcome : RunOutcome} (hexecutes : Executes invocation execute)
    (h : Checks surroundings invocation outcome) (htokens : outcome.tokens < Nat.pow 2 64) :
    MissingBack (execute surroundings).output outcome (success (ofOutcome outcome)) := by
  rw [h.output_eq hexecutes]
  exact ⟨readsAs_line (writable_success (writable_ofOutcome outcome))
    (fits_success (fits_ofOutcome htokens (by decide)) (by decide)), rfl⟩

end

/-- **An answer reads back.**  The names of a schema come back from the line that its compilation
prints, and those that a check misses from the line of the check.  Tokens are counted in a machine
word. -/
theorem Executes.readsBack {invocation : Invocation} {execute : Surroundings → Execution}
    (h : Executes invocation execute) (surroundings : Surroundings) :
    (∀ names, Compiles surroundings invocation (some names) →
      ∃ response data, CompiledBack (execute surroundings).output names response data) ∧
      ∀ outcome, Checks surroundings invocation outcome → outcome.tokens < Nat.pow 2 64 →
        ∃ response, MissingBack (execute surroundings).output outcome response :=
  ⟨fun _ hcompiles => ⟨_, _, hcompiles.compiledBack h⟩,
    fun _ hchecks htokens => ⟨_, hchecks.missingBack h htokens⟩⟩

/-- A quote, a backslash, two control characters, a character outside the basic plane and the empty
name come back from the compiled schema. -/
theorem Executes.readsBack_escapes : ∃ response data, CompiledBack
    (Execution.run ["compile", "--schema=s"] { disk := ⟨fun _ => .ok (.file (encoded
      (object [("required", .ofStrings ["\"", "\\", "\n", "\x00", "𝄞", ""])]).compact.toList)),
      fun _ => .error .notFound⟩ }).output ["\"", "\\", "\n", "\x00", "𝄞", ""] response data := by
  have hexecutes : Executes ⟨none, .compile (Path.ofString "s")⟩
      (Execution.run ["compile", "--schema=s"]) := .parsed rfl
  exact (hexecutes.readsBack _).1 _ (compiles_ofStrings (by decide) rfl rfl)

end RequiredKeys
