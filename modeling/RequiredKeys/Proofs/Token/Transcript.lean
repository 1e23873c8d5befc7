import RequiredKeys.Token.Transcript
import RequiredKeys.Proofs.Token.Pull

/-!
# Whole transcripts

A tokenizer `Delivers` some tokens if pulling gives these, one after the other, and
then the end of the input.  `Succession` is the same without a tokenizer: a row of
gaps and lexemes, each allowed where it stands.  `Tokenizer.delivers_iff` says that
the two are one, so what is proved of rows of lexemes holds of pulls.
-/

namespace RequiredKeys

/-- `Succession nesting due bytes tokens`: from `nesting`, where `due` tells whether a
separator must come first, `bytes` are a row of lexemes with gaps between them. -/
inductive Succession : Nesting → Bool → List UInt8 → List Token → Prop
  | done {due : Bool} {bytes : List UInt8} (h : Blanks bytes) : Succession [] due bytes []
  | step {nesting inner after : Nesting} {due : Bool} {gap lexeme rest : List UInt8}
      {token : Token} {tokens : List Token} (hgap : nesting.Crosses gap inner)
      (hreads : inner.Reads lexeme token after)
      (hends : token.kind = .number → NumberEnds lexeme (Feed.ofBytes rest))
      (hdue : due = true → ∀ b ∈ (gap ++ lexeme).head?, Gap.separates b = true)
      (hrest : Succession after (token.kind.isScalar && after.isEmpty) rest tokens) :
      Succession nesting due (gap ++ lexeme ++ rest) (token :: tokens)

namespace Tokenizer

/-- Pulling gives exactly these tokens and then the end of the input. -/
def Delivers (tokenizer : Tokenizer) (tokens : List Token) : Prop :=
  (tokenizer.transcript 0).1 = tokens.map (fun token => .ok (some token)) ++ [.ok none]

/-- A transcript depends on what the next pull does. -/
theorem transcript_eq (tokenizer : Tokenizer) (retries : Nat) :
    tokenizer.transcript retries =
      match tokenizer.pull, retries with
      | (.ok none, next), _ => ([.ok none], next)
      | (.ok (some token), next), retries =>
        (.ok (some token) :: (next.transcript retries).1, (next.transcript retries).2)
      | (.error error, next), 0 => ([.error error], next)
      | (.error error, next), more + 1 =>
        (.error error :: (next.transcript more).1, (next.transcript more).2) := by
  rw [transcript]
  split
  · next next hpull => simp [hpull]
  · next token next hpull => simp [hpull]
  · next error next hpull => cases retries <;> simp [hpull]

theorem transcript_congr {tokenizer other : Tokenizer} (h : tokenizer.pull = other.pull)
    (retries : Nat) : tokenizer.transcript retries = other.transcript retries := by
  rw [transcript_eq, h, ← transcript_eq]

theorem transcript_of_end {tokenizer next : Tokenizer} (h : tokenizer.pull = (.ok none, next))
    (retries : Nat) : tokenizer.transcript retries = ([.ok none], next) := by
  rw [transcript_eq, h]

theorem transcript_of_token {tokenizer next : Tokenizer} {token : Token}
    (h : tokenizer.pull = (.ok (some token), next)) (retries : Nat) :
    tokenizer.transcript retries =
      (.ok (some token) :: (next.transcript retries).1, (next.transcript retries).2) := by
  rw [transcript_eq, h]

theorem transcript_of_error {tokenizer next : Tokenizer} {error : StreamError}
    (h : tokenizer.pull = (.error error, next)) :
    tokenizer.transcript 0 = ([.error error], next) := by
  rw [transcript_eq, h]

theorem transcript_of_retry {tokenizer next : Tokenizer} {error : StreamError}
    (h : tokenizer.pull = (.error error, next)) (more : Nat) :
    tokenizer.transcript (more + 1) =
      (.error error :: (next.transcript more).1, (next.transcript more).2) := by
  rw [transcript_eq, h]

/-- No tokens come if the first pull finds the end. -/
theorem delivers_nil_iff {tokenizer : Tokenizer} :
    tokenizer.Delivers [] ↔ ∃ next, tokenizer.pull = (.ok none, next) := by
  unfold Delivers
  constructor
  · intro h
    cases hpull : tokenizer.pull with
    | mk answer next =>
        cases answer with
        | error error => simp [transcript_of_error hpull] at h
        | ok found =>
            cases found with
            | none => exact ⟨next, rfl⟩
            | some token => simp [transcript_of_token hpull] at h
  · rintro ⟨next, hpull⟩
    simp [transcript_of_end hpull]

/-- One token comes first, and the tokenizer behind it delivers the others. -/
theorem delivers_cons_iff {tokenizer : Tokenizer} {token : Token} {tokens : List Token} :
    tokenizer.Delivers (token :: tokens) ↔
      ∃ next, tokenizer.pull = (.ok (some token), next) ∧ next.Delivers tokens := by
  unfold Delivers
  constructor
  · intro h
    cases hpull : tokenizer.pull with
    | mk answer next =>
        cases answer with
        | error error => simp [transcript_of_error hpull] at h
        | ok found =>
            cases found with
            | none => simp [transcript_of_end hpull] at h
            | some other =>
                simp only [transcript_of_token hpull, List.map_cons, List.cons_append,
                  List.cons.injEq, Except.ok.injEq, Option.some.injEq] at h
                obtain ⟨rfl, htokens⟩ := h
                exact ⟨next, rfl, htokens⟩
  · rintro ⟨next, hpull, htokens⟩
    simp [transcript_of_token hpull, htokens]

/-- A tokenizer delivers no two rows of tokens. -/
theorem Delivers.unique {tokenizer : Tokenizer} {tokens others : List Token}
    (h : tokenizer.Delivers tokens) (hothers : tokenizer.Delivers others) : tokens = others := by
  have hanswers := List.append_cancel_right (h.symm.trans hothers)
  refine (List.map_inj_right ?_).mp hanswers
  intro token other heq
  exact Option.some.inj (Except.ok.inj heq)

/-- Behind some pulls a tokenizer delivers what it has not delivered yet.  At the end
of the input it stays there. -/
theorem Delivers.drop {tokenizer : Tokenizer} {tokens : List Token} (h : tokenizer.Delivers tokens)
    (pulls : Nat) : (tokenizer.afterPulls pulls).Delivers (tokens.drop pulls) := by
  induction pulls generalizing tokenizer tokens with
  | zero => exact h
  | succ pulls ih =>
      cases tokens with
      | nil =>
          obtain ⟨next, hpull⟩ := delivers_nil_iff.mp h
          obtain ⟨blanks, -, -, -, rfl⟩ := pull_eq_end_iff.mp hpull
          have hagain : (Tokenizer.mk ⟨[], tokenizer.position.afterAll blanks⟩ [] false none).Delivers
              [] := by
            rw [delivers_nil_iff]
            exact ⟨_, pull_eq_end_iff.mpr ⟨[], rfl, blanks_nil, rfl, rfl⟩⟩
          rw [afterPulls, hpull]
          simpa using ih hagain
      | cons token tokens =>
          obtain ⟨next, hpull, hrest⟩ := delivers_cons_iff.mp h
          rw [afterPulls, hpull]
          exact ih hrest

/-- **What a tokenizer delivers** from bytes whose reads never fail is a row of
lexemes.  The induction is on the tokens; one pull is one step. -/
theorem delivers_iff {tokenizer : Tokenizer} {bytes : List UInt8} {tokens : List Token}
    (hfeed : tokenizer.cursor.feed = Feed.ofBytes bytes) :
    tokenizer.Delivers tokens ↔
      Succession tokenizer.nesting tokenizer.separatorDue bytes tokens := by
  induction tokens generalizing tokenizer bytes with
  | nil =>
      rw [delivers_nil_iff]
      constructor
      · rintro ⟨next, hpull⟩
        obtain ⟨blanks, hblanks, hblank, hnesting, -⟩ := pull_eq_end_iff.mp hpull
        rw [hfeed] at hblanks
        rw [hnesting, Feed.ofBytes_injective hblanks]
        exact .done hblank
      · intro h
        generalize hnesting : tokenizer.nesting = nesting at h
        cases h with
        | done hblank => exact ⟨_, pull_eq_end_iff.mpr ⟨bytes, hfeed, hblank, hnesting, rfl⟩⟩
  | cons token tokens ih =>
      rw [delivers_cons_iff]
      constructor
      · rintro ⟨next, hpull, htokens⟩
        obtain ⟨gap, lexeme, rest, inner, after, hbytes, hgap, hreads, hends, hdue, rfl⟩ :=
          pull_eq_token_iff.mp hpull
        -- A feed without failures is split into two such feeds.
        rw [hfeed] at hbytes
        obtain ⟨hrest, rfl⟩ := Feed.eq_ofBytes_of_append hbytes
        rw [hrest] at hends
        exact .step hgap hreads hends hdue ((ih hrest).mp htokens)
      · intro h
        generalize hnesting : tokenizer.nesting = nesting at h
        cases h with
        | step hgap hreads hends hdue hrest =>
            subst hnesting
            refine ⟨_, pull_eq_token_iff.mpr
              ⟨_, _, _, _, _, ?_, hgap, hreads, hends, hdue, rfl⟩, (ih rfl).mpr hrest⟩
            rw [hfeed, Feed.ofBytes_append]

theorem delivers_ofBytes_iff {document : List UInt8} {tokens : List Token} :
    (ofBytes document).Delivers tokens ↔ Succession [] false document tokens :=
  delivers_iff rfl

end Tokenizer
end RequiredKeys
