import RequiredKeys.Requirement.Check
import RequiredKeys.Proofs.Json.Keys
import RequiredKeys.Proofs.Token.Acceptance
import RequiredKeys.Proofs.Token.Source

/-!
# The verdict of a check

A check asks a document for the names of a clause.  This module says what it finds
out, in terms of the values that the document writes.

* `Outstanding.names_observeAll` is the fold over the tokens: what is left of distinct
  names is what the tokens do not offer, in the old order.
* `Progress.run_of_delivers` is the loop.  Stopping early changes neither what is left
  nor whether it is empty, since nothing is ever added; it only hides the end.
* `MatchScope.offeredNames_filter` leads from tokens to the keys of the values.

`check_of_documentText` puts the three together.
-/

namespace RequiredKeys

/-! ## Distinct names -/

/-- Names are distinct where the clause finds none of them twice. -/
theorem Clause.nodup_of_repeated_eq_nil {names : List String} (h : repeated names = []) :
    names.Nodup := by
  rw [List.nodup_iff_count]
  intro name
  by_cases hmem : name ∈ names
  · have hnone := List.filter_eq_nil_iff.mp h name (List.mem_eraseDups.mpr hmem)
    simpa using hnone
  · rw [List.count_eq_zero_of_not_mem hmem]
    omega

/-- A clause that is well-formed has distinct names. -/
theorem Clause.nodup_of_ofSchema {schema : Json} {names : List String}
    (h : ofSchema schema = .names names) : names.Nodup := by
  unfold ofSchema at h
  split at h
  · unfold ofValue at h
    split at h
    · unfold ofElements at h
      dsimp only at h
      split at h
      · simp at h
      · split at h
        · simp at h
        · next hrepeated =>
            rw [Clause.names.injEq] at h
            subst h
            exact nodup_of_repeated_eq_nil (by simpa using hrepeated)
    · simp at h
  · simp at h

theorem eraseDups_of_nodup {names : List String} (h : names.Nodup) : names.eraseDups = names := by
  induction names with
  | nil => rfl
  | cons name names ih =>
      obtain ⟨hmem, hrest⟩ := List.nodup_cons.mp h
      -- Distinct names have no further copies for the filter to drop.
      have hfilter : names.filter (fun other => !other == name) = names := by
        rw [List.filter_eq_self]
        intro other hother
        have hne : other ≠ name := by
          rintro rfl
          exact hmem hother
        simpa using hne
      rw [List.eraseDups_cons, hfilter, ih hrest]

namespace Outstanding

/-- One name is taken away where it is offered. -/
theorem names_observe {outstanding : Outstanding} (h : outstanding.names.Nodup) (token : Token) :
    (outstanding.observe token).names =
      outstanding.names.filter (fun name => token.offeredName? ≠ some name) := by
  cases hoffers : token.offeredName? with
  | none =>
      rw [observe_of_offeredName?_eq_none hoffers]
      exact (List.filter_eq_self.mpr (by simp)).symm
  | some offered =>
      rw [observe_of_offeredName?_eq_some hoffers, h.erase_eq_filter]
      apply List.filter_congr
      intro name _
      by_cases hsame : name = offered <;> simp [hsame, eq_comm (a := offered)]

/-- **What is left of distinct names** is what the tokens do not offer. -/
theorem names_observeAll {outstanding : Outstanding} (h : outstanding.names.Nodup)
    (tokens : List Token) :
    (outstanding.observeAll tokens).names =
      outstanding.names.filter (fun name => name ∉ Json.offeredNames tokens) := by
  induction tokens generalizing outstanding with
  | nil => exact (List.filter_eq_self.mpr (by simp)).symm
  | cons token tokens ih =>
      have hobserve := names_observe h token
      have hnodup : (outstanding.observe token).names.Nodup := by
        rw [hobserve]
        exact h.filter _
      -- Two filters, one for the first token and one for the others, are one.
      rw [observeAll_cons, ih hnodup, hobserve, List.filter_filter]
      apply List.filter_congr
      intro name _
      cases hoffers : token.offeredName? with
      | none => simp [Json.offeredNames, hoffers]
      | some offered => simp [Json.offeredNames, hoffers, eq_comm (a := offered), Bool.and_comm]

/-- Where nothing is outstanding nothing ever will be. -/
theorem observeAll_of_isSatisfied {outstanding : Outstanding}
    (h : outstanding.isSatisfied = true) (tokens : List Token) :
    outstanding.observeAll tokens = outstanding := by
  have hnames : outstanding.names = [] := List.isEmpty_iff.mp h
  induction tokens with
  | nil => rfl
  | cons token tokens ih =>
      have hobserve : outstanding.observe token = outstanding := by
        obtain ⟨names⟩ := outstanding
        obtain rfl : names = [] := hnames
        cases hoffers : token.offeredName? with
        | none => exact observe_of_offeredName?_eq_none hoffers
        | some name => exact observe_of_offeredName?_eq_some hoffers
      rw [observeAll_cons, hobserve, ih]

end Outstanding

/-! ## The loop -/

namespace Progress

variable {σ : Type} [TokenSource σ] {options : RunOptions} {progress : Progress} {source rest : σ}

theorem run_of_stop
    (h : (options.stopWhenSatisfied && progress.outstanding.isSatisfied) = true) :
    progress.run options source = progress.conclude source false := by
  rw [run, if_pos h]

theorem run_of_end
    (h : (options.stopWhenSatisfied && progress.outstanding.isSatisfied) = false)
    (hnext : TokenSource.next source = (.ok none, rest)) :
    progress.run options source = progress.conclude rest true := by
  rw [run, if_neg (by simp [h])]
  split
  · next hother => simp [hnext] at hother
  · next other hother =>
      obtain rfl : rest = other := by simpa [hnext] using hother
      rfl
  · next hother => simp [hnext] at hother

theorem run_of_error {error : StreamError}
    (h : (options.stopWhenSatisfied && progress.outstanding.isSatisfied) = false)
    (hnext : TokenSource.next source = (.error error, rest)) :
    progress.run options source = ⟨.error error, rest, progress.events.toList⟩ := by
  rw [run, if_neg (by simp [h])]
  split
  · next other found hother =>
      obtain ⟨rfl, rfl⟩ : error = other ∧ rest = found := by simpa [hnext] using hother
      rfl
  · next hother => simp [hnext] at hother
  · next hother => simp [hnext] at hother

theorem run_of_token {kind : TokenKind}
    (h : (options.stopWhenSatisfied && progress.outstanding.isSatisfied) = false)
    (hnext : TokenSource.next source = (.ok (some kind), rest)) :
    progress.run options source =
      (progress.advance options.scope (TokenSource.current rest)).run options rest := by
  rw [run, if_neg (by simp [h])]
  split
  · next hother => simp [hnext] at hother
  · next hother => simp [hnext] at hother
  · next other found hother =>
      obtain ⟨-, rfl⟩ : kind = other ∧ rest = found := by simpa [hnext] using hother
      rfl

/-- A pulled token takes its name away if the scope admits it. -/
theorem outstanding_advance (progress : Progress) (scope : MatchScope) (token : Token) :
    (progress.advance scope (some token)).outstanding =
      if scope.admits token then progress.outstanding.observe token
      else progress.outstanding := by
  unfold advance offer
  dsimp only
  split
  · split <;> rfl
  · rfl

/-- What is pulled first goes in front of the tokens that come behind it. -/
theorem observeAll_advance (progress : Progress) (scope : MatchScope) (token : Token)
    (tokens : List Token) :
    (progress.advance scope (some token)).outstanding.observeAll (tokens.filter scope.admits) =
      progress.outstanding.observeAll ((token :: tokens).filter scope.admits) := by
  rw [outstanding_advance]
  cases hadmits : scope.admits token with
  | true => rw [if_pos rfl, List.filter_cons_of_pos hadmits, Outstanding.observeAll_cons]
  | false => rw [if_neg Bool.false_ne_true, List.filter_cons_of_neg (by simp [hadmits])]

/-- **A run over a tokenizer that delivers some tokens** succeeds.  What is left is
what the admitted tokens leave, also where the run stops before they are over. -/
theorem run_of_delivers (options : RunOptions) {tokenizer : Tokenizer} {tokens : List Token}
    (h : tokenizer.Delivers tokens) (progress : Progress) :
    ∃ left count, left = progress.outstanding.observeAll (tokens.filter options.scope.admits) ∧
      (progress.run options tokenizer).result =
        .ok ⟨left, count, !(options.stopWhenSatisfied && left.isSatisfied)⟩ := by
  induction tokens generalizing tokenizer progress with
  | nil =>
      refine ⟨progress.outstanding, progress.tokens, rfl, ?_⟩
      cases hstop : options.stopWhenSatisfied && progress.outstanding.isSatisfied with
      | true =>
          rw [run_of_stop hstop]
          rfl
      | false =>
          obtain ⟨next, hpull⟩ := Tokenizer.delivers_nil_iff.mp h
          have hnext : TokenSource.next tokenizer = (.ok none, next) := by
            show tokenizer.next = _
            rw [Tokenizer.next_eq, hpull]
            rfl
          rw [run_of_end hstop hnext]
          rfl
  | cons token tokens ih =>
      cases hstop : options.stopWhenSatisfied && progress.outstanding.isSatisfied with
      | true =>
          -- The run stops here, but the tokens that it leaves would change nothing.
          have hsatisfied : progress.outstanding.isSatisfied = true := by
            rw [Bool.and_eq_true] at hstop
            exact hstop.2
          refine ⟨progress.outstanding, progress.tokens,
            (Outstanding.observeAll_of_isSatisfied hsatisfied _).symm, ?_⟩
          rw [run_of_stop hstop, hstop]
          rfl
      | false =>
          obtain ⟨next, hpull, hdelivers⟩ := Tokenizer.delivers_cons_iff.mp h
          have hnext := Tokenizer.next_eq_of_pull hpull
          have hcurrent : TokenSource.current next = some token := Tokenizer.current_of_pull hpull
          -- One round of the loop, and then the run over the rest of the tokens.
          rw [run_of_token hstop hnext, hcurrent]
          obtain ⟨left, count, hleft, hresult⟩ :=
            ih hdelivers (progress.advance options.scope (some token))
          exact ⟨left, count, hleft.trans (observeAll_advance _ _ _ _), hresult⟩

end Progress

/-! ## Documents -/

/-- The keys of some root values that a scope admits. -/
def MatchScope.keys (scope : MatchScope) (values : List Json) : List String :=
  match scope with
  | anywhere => values.flatMap Json.keys
  | topLevel => values.flatMap Json.rootKeys

/-- The names that admitted tokens of a document offer are the keys that the scope
admits. -/
theorem MatchScope.offeredNames_filter (scope : MatchScope) (values : List Json) :
    Json.offeredNames ((Json.documentTokens values).filter scope.admits) = scope.keys values := by
  induction values with
  | nil => cases scope <;> rfl
  | cons value values ih =>
      rw [Json.documentTokens_cons, List.filter_append, Json.offeredNames_append, ih]
      cases scope with
      | anywhere =>
          have hall : (value.tokens 0).filter anywhere.admits = value.tokens 0 :=
            List.filter_eq_self.mpr (fun _ _ => rfl)
          rw [hall, Json.offeredNames_tokens]
          rfl
      | topLevel =>
          have hroot : Json.offeredNames ((value.tokens 0).filter topLevel.admits) = _ :=
            Json.offeredNames_filter_tokens value
          rw [hroot]
          rfl

/-- A clause makes its names outstanding, each of them once. -/
theorem Outstanding.ofClause_ofSchema {schema : Json} {names? : Option (List String)}
    (h : (Clause.ofSchema schema).names? = .ok names?) :
    ofClause (Clause.ofSchema schema) = .ok ⟨names?.getD []⟩ ∧ (names?.getD []).Nodup := by
  cases hclause : Clause.ofSchema schema with
  | absent =>
      rw [hclause] at h
      obtain rfl := Except.ok.inj h
      exact ⟨rfl, List.nodup_nil⟩
  | names names =>
      rw [hclause] at h
      obtain rfl := Except.ok.inj h
      have hnodup := Clause.nodup_of_ofSchema hclause
      refine ⟨?_, hnodup⟩
      show Except.ok (ofNames names) = .ok ⟨names⟩
      rw [ofNames, eraseDups_of_nodup hnodup]
  | malformed error =>
      rw [hclause] at h
      simp [Clause.names?] at h

/-- **The verdict.**  A check of a document succeeds; it misses exactly the required
names that the scope finds nowhere, in the order of the schema.  It has errors if there
are such names, and it does not reach the end only where it may stop and misses none. -/
theorem check_of_documentText {schema : Json} {names? : Option (List String)}
    {document : List UInt8} {values : List Json} (options : RunOptions)
    (hclause : (Clause.ofSchema schema).names? = .ok names?)
    (hdocument : DocumentText document values) :
    ∃ outcome, check schema (Feed.ofBytes document) options = .ok outcome ∧
      outcome.outstanding.names =
        (names?.getD []).filter (fun name => name ∉ options.scope.keys values) ∧
      (outcome.hasErrors = true ↔ outcome.outstanding.names ≠ []) ∧
      (outcome.reachedEnd = false ↔
        options.stopWhenSatisfied = true ∧ outcome.outstanding.names = []) := by
  obtain ⟨hofClause, hnodup⟩ := Outstanding.ofClause_ofSchema hclause
  have hdelivers : (Tokenizer.ofBytes document).Delivers (Json.documentTokens values) :=
    Tokenizer.delivers_ofBytes_iff_documentText.mpr ⟨values, hdocument, rfl⟩
  -- Everything that is required is outstanding when the run begins.
  let outstanding : Outstanding := ⟨names?.getD []⟩
  obtain ⟨left, count, hleft, hresult⟩ :=
    Progress.run_of_delivers options hdelivers { outstanding := outstanding }
  have hnames : left.names =
      (names?.getD []).filter (fun name => name ∉ options.scope.keys values) := by
    have hall : outstanding.names.Nodup := hnodup
    rw [hleft, Outstanding.names_observeAll hall, MatchScope.offeredNames_filter]
  have hcheck : check schema (Feed.ofBytes document) options =
      .ok ⟨left, count, !(options.stopWhenSatisfied && left.isSatisfied)⟩ := by
    unfold check Clause.runFeed
    rw [hofClause]
    show Except.mapError CheckError.stream (Progress.run options _ _).result = _
    rw [show Tokenizer.ofFeed (Feed.ofBytes document) = Tokenizer.ofBytes document from rfl,
      hresult]
    rfl
  refine ⟨_, hcheck, hnames, ?_, ?_⟩
  · simp [RunOutcome.hasErrors, Outstanding.hasErrors]
  · simp [Outstanding.isSatisfied]

/-- The key `b` stands in an object that is no root value, so a schema that requires it
at the top finds only `a`. -/
theorem check_of_documentText_nested :
    ∃ outcome,
      check (.object [("required", .array [.string "a", .string "b"])])
        (Feed.ofBytes [0x7b, 0x22, 0x61, 0x22, 0x3a, 0x5b, 0x7b, 0x22, 0x62, 0x22, 0x3a, 0x30, 0x7d,
          0x5d, 0x7d]) ⟨.topLevel, true⟩ = .ok outcome ∧
      outcome.outstanding.names = ["b"] ∧ outcome.hasErrors = true ∧
      outcome.reachedEnd = true := by
  have hkey (b : UInt8) (c : Char) (hc : c ≠ '"' ∧ c ≠ '\\' ∧ 0x20 ≤ c.toNat)
      (hb : String.utf8EncodeChar c = [b]) : QuotedText [Ascii.quote, b, Ascii.quote]
        (String.ofList [c]) := by
    refine ⟨[b], rfl, ?_⟩
    have hspelling := Spelling.plain hc.1 hc.2.1 hc.2.2 Spelling.nil
    rw [hb] at hspelling
    rw [String.toList_ofList]
    exact hspelling
  -- The document, from the inside out.
  have hzero : ValueText [0x30] (.number "0") :=
    .number ⟨[], [0x30], rfl, .inl rfl, [0x30], [], rfl, .inl rfl, [], [], rfl, .inl rfl, .inl rfl⟩
  have hinner : ValueText [0x7b, 0x22, 0x62, 0x22, 0x3a, 0x30, 0x7d]
      (.object [("b", .number "0")]) :=
    .object (.last blanks_nil (hkey 0x62 'b' (by decide) rfl) blanks_nil blanks_nil hzero
      blanks_nil)
  have harray : ValueText [0x5b, 0x7b, 0x22, 0x62, 0x22, 0x3a, 0x30, 0x7d, 0x5d]
      (.array [.object [("b", .number "0")]]) :=
    .array (.last blanks_nil hinner blanks_nil)
  have hroot : ValueText [0x7b, 0x22, 0x61, 0x22, 0x3a, 0x5b, 0x7b, 0x22, 0x62, 0x22, 0x3a, 0x30,
      0x7d, 0x5d, 0x7d] (.object [("a", .array [.object [("b", .number "0")]])]) :=
    .object (.last blanks_nil (hkey 0x61 'a' (by decide) rfl) blanks_nil blanks_nil harray
      blanks_nil)
  have hdocument := DocumentText.value blanks_nil hroot (by simp [Json.isScalar])
    (.blank blanks_nil)
  have hclause : (Clause.ofSchema
      (.object [("required", .array [.string "a", .string "b"])])).names? =
        .ok (some ["a", "b"]) := by
    rfl
  obtain ⟨outcome, hcheck, hnames, herrors, hend⟩ :=
    check_of_documentText ⟨.topLevel, true⟩ hclause hdocument
  have hmissing : outcome.outstanding.names = ["b"] := by
    rw [hnames]
    rfl
  refine ⟨outcome, hcheck, hmissing, ?_, ?_⟩
  · exact herrors.mpr (by simp [hmissing])
  · simpa [hmissing] using hend

end RequiredKeys
