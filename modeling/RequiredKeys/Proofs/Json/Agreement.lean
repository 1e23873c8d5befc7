import RequiredKeys.Proofs.Json.Keys
import RequiredKeys.Proofs.Json.ReaderValues
import RequiredKeys.Proofs.Token.Acceptance

/-!
# The two readers agree

Schemas are read by the recursive reader and documents by the tokenizer.  A required
name is found only if both decode it to the same characters.

* `Delivers.depth_le_iff` turns a bound on the containers that are ever open, over all
  pulls, into one on the delivered tokens.
* `countP_beginsRoot` counts root values by their first tokens.
* `OneValue` collects what the tokenizer must deliver for the reader to read the same
  text, and `read?_agrees` says that this is all that is needed, and that the tokens are
  then those of the value read.
-/

namespace RequiredKeys

/-! ## Open containers -/

/-- The containers that are open behind a lexeme are those that its token tells. -/
theorem Nesting.Reads.depthBehind {inner after : Nesting} {lexeme : List UInt8} {token : Token}
    (h : inner.Reads lexeme token after) : after.length = token.depthBehind := by
  cases h with
  | exit _ => rfl
  | key _ _ => rfl
  | enter _ => simp [Token.depthBehind]
  | scalar _ _ hscalar htoken =>
      obtain ⟨hkind, hdepth⟩ := Json.isScalar_of_tokens_eq hscalar htoken
      rw [Nesting.length_expect, ← hdepth]
      unfold Token.depthBehind
      split
      · next hstart => simp [hstart, TokenKind.isScalar] at hkind
      · rfl

namespace Tokenizer

theorem depth_of_pull {tokenizer next : Tokenizer} {token : Token}
    (h : tokenizer.pull = (.ok (some token), next)) : next.depth = token.depthBehind := by
  obtain ⟨gap, lexeme, rest, inner, after, -, -, hreads, -, -, rfl⟩ := pull_eq_token_iff.mp h
  exact hreads.depthBehind

/-- At the end of the input no container is open. -/
theorem Delivers.depth_eq_zero {tokenizer : Tokenizer} (h : tokenizer.Delivers []) :
    tokenizer.depth = 0 := by
  obtain ⟨next, hpull⟩ := delivers_nil_iff.mp h
  obtain ⟨blanks, -, -, hnesting, -⟩ := pull_eq_end_iff.mp hpull
  rw [depth, hnesting, List.length_nil]

/-- **How deep a tokenizer ever gets** can be told from its tokens. -/
theorem Delivers.depth_le_iff {tokenizer : Tokenizer} {tokens : List Token}
    (h : tokenizer.Delivers tokens) (bound : Nat) :
    (∀ pulls, (tokenizer.afterPulls pulls).depth ≤ bound) ↔
      tokenizer.depth ≤ bound ∧ ∀ token ∈ tokens, token.depthBehind ≤ bound := by
  induction tokens generalizing tokenizer with
  | nil =>
      have hzero (pulls : Nat) : (tokenizer.afterPulls pulls).depth = 0 := by
        apply Delivers.depth_eq_zero
        simpa using h.drop pulls
      simp [hzero, h.depth_eq_zero]
  | cons token tokens ih =>
      obtain ⟨next, hpull, hrest⟩ := delivers_cons_iff.mp h
      have hnext : ∀ pulls, tokenizer.afterPulls (pulls + 1) = next.afterPulls pulls := by
        intro pulls
        rw [afterPulls, hpull]
      -- The first pull leads to the depth behind its token; the others are those of the rest.
      rw [List.forall_mem_cons, ← depth_of_pull hpull, ← ih hrest]
      constructor
      · intro hall
        refine ⟨hall 0, ?_⟩
        intro pulls
        rw [← hnext]
        exact hall (pulls + 1)
      · rintro ⟨hnow, hlater⟩ pulls
        cases pulls with
        | zero => exact hnow
        | succ pulls =>
            rw [hnext]
            exact hlater pulls

end Tokenizer

/-! ## Root values -/

/-- Whether a token is the first one of a root value. -/
def Token.beginsRoot (token : Token) : Bool :=
  token.depth == 0 &&
    match token.kind with
    | .endOf _ => false
    | _ => true

namespace Json

/-- Inside a container no root value begins. -/
theorem countP_beginsRoot_eq_zero {tokens : List Token} (h : ∀ token ∈ tokens, 1 ≤ token.depth) :
    tokens.countP Token.beginsRoot = 0 := by
  rw [List.countP_eq_zero]
  intro token htoken hbegins
  have hdepth := h token htoken
  simp only [Token.beginsRoot, Bool.and_eq_true, beq_iff_eq] at hbegins
  omega

theorem countP_beginsRoot_tokens (json : Json) : (json.tokens 0).countP Token.beginsRoot = 1 := by
  cases json with
  | null => rfl
  | bool value => rfl
  | number text => rfl
  | string text => rfl
  | array elements =>
      have hinside : (elementTokens 1 elements).countP Token.beginsRoot = 0 :=
        countP_beginsRoot_eq_zero (fun _ hmem => (depth_of_mem_elementTokens elements hmem).1)
      simp [tokens, hinside, Token.beginsRoot]
  | object members =>
      have hinside : (memberTokens 1 members).countP Token.beginsRoot = 0 :=
        countP_beginsRoot_eq_zero (fun _ hmem => depth_of_mem_memberTokens members hmem)
      simp [tokens, hinside, Token.beginsRoot]

/-- **Each root value has one first token.** -/
theorem countP_beginsRoot (values : List Json) :
    (documentTokens values).countP Token.beginsRoot = values.length := by
  induction values with
  | nil => rfl
  | cons value values ih =>
      rw [documentTokens_cons, List.countP_append, countP_beginsRoot_tokens, ih,
        List.length_cons]
      omega

/-- A document of one value is the value with white space around it. -/
theorem documentText_singleton_iff {text : List UInt8} {json : Json} :
    DocumentText text [json] ↔
      ∃ before bytes after, text = before ++ bytes ++ after ∧ Blanks before ∧
        ValueText bytes json ∧ Blanks after := by
  constructor
  · intro h
    cases h with
    | @value before bytes rest _ _ hbefore hvalue _ hrest =>
        cases hrest with
        | blank hafter => exact ⟨before, bytes, rest, rfl, hbefore, hvalue, hafter⟩
  · rintro ⟨before, bytes, after, rfl, hbefore, hvalue, hafter⟩
    exact .value hbefore hvalue (fun _ => separated_of_blanks hafter) (.blank hafter)

theorem read?_eq_some_iff_documentText {text : List UInt8} {json : Json} :
    read? text = some json ↔ DocumentText text [json] ∧ json.Fits Reader.maxNesting 0 := by
  rw [read?_eq_some_iff, documentText_singleton_iff]
  constructor
  · rintro ⟨before, bytes, after, htext, hbefore, hvalue, hafter, hfits⟩
    exact ⟨⟨before, bytes, after, htext, hbefore, hvalue, hafter⟩, hfits⟩
  · rintro ⟨⟨before, bytes, after, htext, hbefore, hvalue, hafter⟩, hfits⟩
    exact ⟨before, bytes, after, htext, hbefore, hvalue, hafter, hfits⟩

/-- Two values that one text writes are the same, if the reader takes one of them. -/
theorem documentText_unique {text : List UInt8} {json other : Json}
    (h : DocumentText text [json]) (hother : DocumentText text [other])
    (hfits : other.Fits Reader.maxNesting 0) : json = other := by
  -- Both have the tokens that the text delivers, and the limits are a matter of these.
  have htokens : json.tokens 0 = other.tokens 0 := by
    have hleft := Tokenizer.delivers_ofBytes_iff_documentText.mpr ⟨[json], h, rfl⟩
    have hright := Tokenizer.delivers_ofBytes_iff_documentText.mpr ⟨[other], hother, rfl⟩
    simpa using hleft.unique hright
  have hsame : json.Fits Reader.maxNesting 0 := by
    rw [Fits, htokens]
    exact hfits
  have hread := read?_eq_some_iff_documentText.mpr ⟨h, hsame⟩
  rw [read?_eq_some_iff_documentText.mpr ⟨hother, hfits⟩] at hread
  exact (Option.some.inj hread).symm

/-! ## Keys of the root -/

/-- The keys of depth one that are delivered are the keys of a root object. -/
theorem exists_fieldName_iff {members : List (String × Json)} {name : String} :
    (∃ token ∈ (object members).tokens 0,
        token.kind = .fieldName ∧ token.depth = 1 ∧ token.text = some name) ↔
      ((object members).member? name).isSome = true := by
  have hkeys : members.map Prod.fst = (object members).rootKeys := rfl
  rw [isSome_member?_iff, hkeys, ← offeredNames_filter_tokens, offeredNames, List.mem_filterMap]
  constructor
  · rintro ⟨token, htoken, hkind, hdepth, htext⟩
    exact ⟨token, List.mem_filter.mpr ⟨htoken, by simpa using hdepth⟩,
      offeredName?_eq_some_iff.mpr ⟨hkind, htext⟩⟩
  · rintro ⟨token, hmem, hoffers⟩
    obtain ⟨htoken, hdepth⟩ := List.mem_filter.mp hmem
    obtain ⟨hkind, htext⟩ := offeredName?_eq_some_iff.mp hoffers
    exact ⟨token, htoken, hkind, by simpa using hdepth, htext⟩

end Json

/-! ## Agreement -/

/-- What the tokenizer does with a text that is also one value for the reader. -/
structure Tokenizer.OneValue (text : List UInt8) (tokens : List Token) : Prop where
  delivers : (ofBytes text).Delivers tokens
  root : tokens.countP Token.beginsRoot = 1
  nesting : ∀ pulls, ((ofBytes text).afterPulls pulls).depth ≤ Json.Reader.maxNesting
  finite : ∀ token ∈ tokens, token.kind = .number →
    ∀ number ∈ token.text, (Magnitude.ofText number).isFinite = true

/-- A delivered value fits if the tokenizer never goes too deep and all numbers are finite. -/
theorem Tokenizer.oneValue_iff {text : List UInt8} {tokens : List Token} :
    OneValue text tokens ↔
      ∃ json, DocumentText text [json] ∧ tokens = json.tokens 0 ∧
        json.Fits Json.Reader.maxNesting 0 := by
  constructor
  · intro h
    obtain ⟨values, hvalues, rfl⟩ := delivers_ofBytes_iff_documentText.mp h.delivers
    -- One root token is one root value.
    have hlength := h.root
    rw [Json.countP_beginsRoot] at hlength
    obtain ⟨json, rfl⟩ := List.length_eq_one_iff.mp hlength
    have htokens : Json.documentTokens [json] = json.tokens 0 := by simp
    have hdepth := ((h.delivers.depth_le_iff _).mp h.nesting).2
    refine ⟨json, hvalues, htokens, ?_⟩
    intro token htoken
    rw [← htokens] at htoken
    exact ⟨hdepth token htoken, h.finite token htoken⟩
  · rintro ⟨json, hvalues, rfl, hfits⟩
    have htokens : Json.documentTokens [json] = json.tokens 0 := by simp
    have hdelivers : (ofBytes text).Delivers (json.tokens 0) :=
      delivers_ofBytes_iff_documentText.mpr ⟨[json], hvalues, htokens.symm⟩
    refine ⟨hdelivers, Json.countP_beginsRoot_tokens json, ?_, fun token h => (hfits token h).2⟩
    exact (hdelivers.depth_le_iff _).mpr ⟨Nat.zero_le _, fun token h => (hfits token h).1⟩

/-- **The two readers agree.**  The reader takes a text if and only if the tokenizer
delivers one value from it that keeps to the limits of the reader.  The tokens are then
those of the value that was read; so a root object has exactly the members whose names
are delivered as keys of depth one. -/
theorem Json.read?_agrees (text : List UInt8) :
    ((read? text).isSome = true ↔ ∃ tokens, Tokenizer.OneValue text tokens) ∧
      ∀ json, read? text = some json →
        (∀ tokens, (Tokenizer.ofBytes text).Delivers tokens ↔ tokens = json.tokens 0) ∧
          ∀ members, json = .object members → ∀ name,
            (∃ token ∈ json.tokens 0,
              token.kind = .fieldName ∧ token.depth = 1 ∧ token.text = some name) ↔
              (json.member? name).isSome = true := by
  refine ⟨?_, ?_⟩
  · -- Both sides ask for a document of one value that fits.
    simp only [Option.isSome_iff_exists, read?_eq_some_iff_documentText, Tokenizer.oneValue_iff]
    constructor
    · rintro ⟨json, hvalue, hfits⟩
      exact ⟨json.tokens 0, json, hvalue, rfl, hfits⟩
    · rintro ⟨_, json, hvalue, rfl, hfits⟩
      exact ⟨json, hvalue, hfits⟩
  · intro json hread
    obtain ⟨hvalue, hfits⟩ := read?_eq_some_iff_documentText.mp hread
    have hdelivers := (Tokenizer.oneValue_iff.mpr ⟨json, hvalue, rfl, hfits⟩).delivers
    refine ⟨?_, ?_⟩
    · intro tokens
      constructor
      · intro hother
        exact hother.unique hdelivers
      · rintro rfl
        exact hdelivers
    · rintro members rfl name
      exact exists_fieldName_iff

end RequiredKeys
