import RequiredKeys.Proofs.Input.Failures
import RequiredKeys.Proofs.Token.Source
import RequiredKeys.Proofs.Token.Truncation

/-!
# When a failed read is noticed

A document that is tokenized to its end is read once more, and now the read in front of one of its
bytes fails.  The pull that first needs this byte reports the failure, and no earlier one does.

* `Lexeme.Needs` says which tokens need a byte: those that have it in their text or behind it, and
  a number also needs the byte directly behind its own, since nothing else tells that it is over.
* Inside a gap the failed read is the first thing that the rest of the pull meets; inside a lexeme
  the second scan meets it (`TokenStart.Finishes.result_read_failure`).
* `Layout.exists_failedRead` follows the row of lexemes up to the failure.
-/

namespace RequiredKeys

open Ascii

namespace Lexeme

/-- The token cannot be given before the byte at `offset` has been looked at. -/
def Needs (lexeme : Lexeme) (offset : Nat) : Prop :=
  offset < lexeme.stop ∨ lexeme.token.kind = .number ∧ offset = lexeme.stop

instance (lexeme : Lexeme) (offset : Nat) : Decidable (lexeme.Needs offset) :=
  inferInstanceAs (Decidable (_ ∨ _))

/-- Behind its text a token needs no byte, but for the one directly behind a number. -/
theorem needs_behind_iff {lexeme : Lexeme} {later : List UInt8} :
    lexeme.Needs (lexeme.stop + later.length) ↔ lexeme.token.kind = .number ∧ later = [] := by
  rw [Needs, ← List.length_eq_zero_iff]
  constructor
  · rintro (hlt | ⟨hnumber, htouch⟩)
    · omega
    · exact ⟨hnumber, by omega⟩
  · rintro ⟨hnumber, hlater⟩
    exact .inr ⟨hnumber, by omega⟩

end Lexeme

/-- The tokens that do not need the byte at `offset`. -/
def tokensWithout (lexemes : List Lexeme) (offset : Nat) : List Token :=
  (lexemes.filter (fun lexeme => !decide (lexeme.Needs offset))).map Lexeme.token

theorem tokensWithout_cons_of_needs {lexeme : Lexeme} {lexemes : List Lexeme} {offset : Nat}
    (h : lexeme.Needs offset) :
    tokensWithout (lexeme :: lexemes) offset = tokensWithout lexemes offset := by
  simp [tokensWithout, h]

theorem tokensWithout_cons_of_not_needs {lexeme : Lexeme} {lexemes : List Lexeme} {offset : Nat}
    (h : ¬ lexeme.Needs offset) :
    tokensWithout (lexeme :: lexemes) offset = lexeme.token :: tokensWithout lexemes offset := by
  simp [tokensWithout, h]

/-- A row behind a byte needs that byte throughout. -/
theorem Layout.tokensWithout_eq_nil {nesting : Nesting} {due : Bool} {before bytes : List UInt8}
    {lexemes : List Lexeme} (h : Layout nesting due before bytes lexemes) {offset : Nat}
    (hoffset : offset ≤ before.length) : tokensWithout lexemes offset = [] := by
  induction h with
  | done _ => rfl
  | @step _ _ _ _ before gap lexeme _ _ _ _ hreads _ _ _ ih =>
      have hpos := List.length_pos_iff.mpr hreads.ne_nil
      have hlength : (before ++ (gap ++ lexeme)).length =
          before.length + gap.length + lexeme.length := by
        simp only [List.length_append, Nat.add_assoc]
      have hstop : offset < (before ++ (gap ++ lexeme)).length := by omega
      rw [tokensWithout_cons_of_needs (.inl hstop)]
      exact ih (Nat.le_of_lt hstop)

/-! ## A failed read inside a token -/

namespace TokenStart

theorem result_run_quoted_failure {body part more : List UInt8} {text : String}
    (htext : Spelling body text.toList) (hbytes : part ++ more = body ++ [quote])
    (hmore : more ≠ []) (reason : String) (feed : Feed) (p : Position) :
    (PartialQuoted.scanner.run {} ⟨Feed.ofBytes part ++ .failure reason :: feed, p⟩).result =
      .error (.unreadable reason) := by
  have hwhole : ∃ last, PartialQuoted.scanner.Completes {} (part ++ more) [] last (.ok text) :=
    PartialQuoted.completes_ok_iff.mpr ⟨body, hbytes, htext⟩
  obtain ⟨last, hcompletes⟩ := hwhole
  exact hcompletes.result_run_failure hmore reason feed p

theorem result_run_word_failure {literal : Literal} {part more : List UInt8}
    (hbytes : part ++ more = literal.bytes) (hmore : more ≠ []) (reason : String) (feed : Feed)
    (p : Position) :
    (literal.scanner.run literal.bytes ⟨Feed.ofBytes part ++ .failure reason :: feed, p⟩).result =
      .error (.unreadable reason) := by
  have hwhole : ∃ last, literal.scanner.Completes literal.bytes (part ++ more) [] last (.ok ()) :=
    Literal.completes_ok_iff.mpr hbytes
  obtain ⟨last, hcompletes⟩ := hwhole
  exact hcompletes.result_run_failure hmore reason feed p

/-- A number that has only begun is taken as far as it goes. -/
theorem result_run_number_failure {part more : List UInt8} (h : NumberText (part ++ more))
    (reason : String) (feed : Feed) (p : Position) :
    (PartialNumber.scanner.run {} ⟨Feed.ofBytes part ++ .failure reason :: feed, p⟩).result =
      .error (.unreadable reason) := by
  obtain ⟨phase, hphase, -⟩ := NumberPhase.continues_append.mp
    (show NumberPhase.start.Continues (part ++ more) from h)
  have htaken : PartialNumber.scanner.afterAll? {} part =
      some ⟨phase, Json.Reader.asciiText part⟩ :=
    PartialNumber.afterAll?_scanner_eq_some.mpr ⟨hphase, rfl⟩
  exact congrArg Scan.result (Scanner.runFrom_of_interrupted htaken reason feed p)

/-- **A token that lacks a byte fails with the read of it.**  A number lacks the byte behind its
own ones, too. -/
theorem Finishes.result_read_failure {start : TokenStart} {filled after : Nesting}
    {part more : List UInt8} {rest : Feed} {token : Token}
    (h : start.Finishes filled (part ++ more) rest token after)
    (hmore : more ≠ [] ∨ token.kind = .number) (reason : String) (feed : Feed) (p : Position) :
    (start.read filled ⟨Feed.ofBytes part ++ .failure reason :: feed, p⟩).result =
      .error (.unreadable reason) := by
  generalize hbytes : part ++ more = bytes at h
  cases h with
  | enter =>
      have hne : more ≠ [] := hmore.resolve_right (by simp)
      exact absurd (List.append_eq_nil_iff.mp hbytes).2 hne
  | exit =>
      have hne : more ≠ [] := hmore.resolve_right (by simp)
      exact absurd (List.append_eq_nil_iff.mp hbytes).2 hne
  | key hname =>
      have hrun := result_run_quoted_failure hname hbytes (hmore.resolve_right (by simp)) reason
        feed p
      simp only [read, hrun]
  | string htext =>
      have hrun := result_run_quoted_failure htext hbytes (hmore.resolve_right (by simp)) reason
        feed p
      simp only [read, ofScan, hrun]
      rfl
  | number htext _ =>
      subst hbytes
      have hrun := result_run_number_failure htext reason feed p
      simp only [read, ofScan, hrun]
      rfl
  | bool =>
      have hrun := result_run_word_failure hbytes (hmore.resolve_right (by simp)) reason feed p
      simp only [read, ofScan, hrun]
      rfl
  | null =>
      have hrun := result_run_word_failure hbytes (hmore.resolve_right (by simp)) reason feed p
      simp only [read, ofScan, hrun]
      rfl

end TokenStart

namespace Tokenizer

/-- A pull that comes to a failed read inside a token reports it. -/
theorem pull_of_part_failure {nesting inner after : Nesting} {gap part more : List UInt8}
    {token : Token} {due : Bool} (hgap : nesting.Crosses gap inner)
    (hreads : inner.Reads (part ++ more) token after)
    (hmore : more ≠ [] ∨ token.kind = .number) (hpart : part ≠ [])
    (hdue : due = true → ∀ c ∈ (gap ++ part).head?, Gap.separates c = true) (reason : String)
    (feed : Feed) (p : Position) (current : Option Token) :
    ∃ next, pull ⟨⟨Feed.ofBytes (gap ++ part) ++ .failure reason :: feed, p⟩, nesting, due,
      current⟩ = (.error (.unreadable reason), next) := by
  obtain ⟨b, tail, rfl⟩ := List.exists_cons_of_ne_nil hpart
  have hends (_ : token.kind = .number) : NumberEnds (b :: tail ++ more) [] := .inl rfl
  obtain ⟨start, filled, c, hbegins, hhead, hfinishes⟩ := hreads.exists_begins hends
  obtain rfl : b = c := Option.some.inj hhead
  rw [TokenStart.remainder_append] at hfinishes
  exact pull_of_read_error (fun _ => .unreadable reason) hgap hbegins hdue
    (hfinishes.result_read_failure hmore reason feed) p current

/-- A pull that comes to a failed read in front of a token reports it. -/
theorem pull_of_gap_failure {nesting inner : Nesting} {gap : List UInt8} {due : Bool}
    (hgap : nesting.Crosses gap inner)
    (hdue : due = true → ∀ b ∈ gap.head?, Gap.separates b = true) (reason : String) (feed : Feed)
    (p : Position) (current : Option Token) :
    ∃ next, pull ⟨⟨Feed.ofBytes gap ++ .failure reason :: feed, p⟩, nesting, due, current⟩ =
      (.error (.unreadable reason), next) := by
  rw [pull_of_gap hgap hdue _ p current none, pull_failure]
  exact ⟨_, rfl⟩

/-- `FailsBehind tokenizer tokens reason`: the tokenizer gives the tokens, and then it reports that
a read failed for this reason and has no current token. -/
def FailsBehind (tokenizer : Tokenizer) (tokens : List Token) (reason : String) : Prop :=
  ∃ error last, tokenizer.transcript 0 =
      (tokens.map (fun token => .ok (some token)) ++ [.error error], last) ∧
    error.code = "STREAM_IO_ERROR" ∧
    error.message = "I/O error while reading JSON stream: " ++ reason ∧ last.current = none

theorem FailsBehind.of_error {tokenizer : Tokenizer} {reason : String}
    (h : ∃ next, tokenizer.pull = (.error (.unreadable reason), next)) :
    tokenizer.FailsBehind [] reason := by
  obtain ⟨next, hpull⟩ := h
  have hcurrent := tokenizer.current_pull
  rw [hpull] at hcurrent
  exact ⟨.unreadable reason, next, transcript_of_error hpull, rfl, rfl, hcurrent⟩

theorem FailsBehind.of_token {tokenizer next : Tokenizer} {token : Token} {tokens : List Token}
    {reason : String} (hpull : tokenizer.pull = (.ok (some token), next))
    (h : next.FailsBehind tokens reason) : tokenizer.FailsBehind (token :: tokens) reason := by
  obtain ⟨error, last, hrun, herror⟩ := h
  refine ⟨error, last, ?_, herror⟩
  rw [transcript_of_token hpull, hrun]
  rfl

end Tokenizer

/-- **Along a row of lexemes up to a failed read.**  The induction is on the row.  A lexeme in
front of the failure is read as before, unless it is a number that touches it; then the failure
lies in a gap or in a lexeme. -/
theorem Layout.failsBehind {nesting : Nesting} {due : Bool} {before bytes : List UInt8}
    {lexemes : List Lexeme} (h : Layout nesting due before bytes lexemes)
    {taken left : List UInt8} (hbytes : bytes = taken ++ left) (reason : String) (feed : Feed)
    (p : Position) (current : Option Token) :
    Tokenizer.FailsBehind
      ⟨⟨Feed.ofBytes taken ++ .failure reason :: feed, p⟩, nesting, due, current⟩
      (tokensWithout lexemes (before ++ taken).length) reason := by
  induction h generalizing taken p current with
  | @done due before bytes hblanks =>
      have htaken : Blanks taken := by
        rw [hbytes, blanks_append] at hblanks
        exact hblanks.1
      apply Tokenizer.FailsBehind.of_error
      apply Tokenizer.pull_of_gap_failure (.of_blanks htaken)
      intro _ b hb
      exact Gap.separates_of_isBlank (htaken b (List.mem_of_mem_head? hb))
  | @step nesting inner after due before gap lexeme rest token lexemes hgap hreads hends hdue hrest
      ih =>
      -- A lexeme that needs the missing byte keeps back the ones behind it.
      have hnone (hneeds : Lexeme.Needs ⟨token, (before ++ gap).length,
            (before ++ (gap ++ lexeme)).length⟩ (before ++ taken).length)
          (hle : (before ++ taken).length ≤ (before ++ (gap ++ lexeme)).length) :
          tokensWithout (⟨token, (before ++ gap).length, (before ++ (gap ++ lexeme)).length⟩ ::
            lexemes) (before ++ taken).length = [] := by
        rw [tokensWithout_cons_of_needs hneeds, hrest.tokensWithout_eq_nil hle]
      obtain ⟨later, rfl, rfl⟩ | ⟨behind, rfl⟩ | ⟨part, more, hpart, hmore, rfl, rfl⟩ :=
        cut_cases hbytes
      · have hlength : (before ++ (gap ++ lexeme ++ later)).length =
            (before ++ (gap ++ lexeme)).length + later.length := by
          simp only [List.length_append, Nat.add_assoc]
        have hneeds := @Lexeme.needs_behind_iff
          ⟨token, (before ++ gap).length, (before ++ (gap ++ lexeme)).length⟩ later
        rw [← hlength] at hneeds
        by_cases htouch : token.kind = .number ∧ later = []
        · rw [hnone (hneeds.mpr htouch) (by simp [htouch.2])]
          obtain ⟨hnumber, rfl⟩ := htouch
          have hwhole : inner.Reads (lexeme ++ []) token after := by rwa [List.append_nil]
          rw [List.append_nil]
          apply Tokenizer.FailsBehind.of_error
          exact Tokenizer.pull_of_part_failure hgap hwhole (.inr hnumber) hreads.ne_nil hdue reason
            feed p current
        · -- A number that is not touched is over at a byte that is read.
          have hover (hkind : token.kind = .number) :
              NumberEnds lexeme (Feed.ofBytes later ++ .failure reason :: feed) := by
            cases later with
            | nil => exact absurd ⟨hkind, rfl⟩ htouch
            | cons b later => exact (hends hkind).of_byte _
          have hpull := Tokenizer.pull_of_lexeme hgap hreads hover hdue p current
          have hbehind := ih rfl (p.afterAll (gap ++ lexeme)) (some token)
          rw [← List.append_assoc, ← Feed.ofBytes_append] at hpull
          rw [List.append_assoc before] at hbehind
          rw [tokensWithout_cons_of_not_needs (mt hneeds.mp htouch)]
          exact .of_token hpull hbehind
      · have hlength : (before ++ (taken ++ behind ++ lexeme)).length =
            (before ++ taken).length + behind.length + lexeme.length := by
          simp only [List.length_append, Nat.add_assoc]
        have hpos := List.length_pos_iff.mpr hreads.ne_nil
        have hlt : (before ++ taken).length < (before ++ (taken ++ behind ++ lexeme)).length := by
          omega
        obtain ⟨mid, hfirst, -⟩ := Nesting.crosses_append_iff.mp hgap
        rw [List.append_assoc] at hdue
        rw [hnone (.inl hlt) (Nat.le_of_lt hlt)]
        apply Tokenizer.FailsBehind.of_error
        exact Tokenizer.pull_of_gap_failure hfirst (fun h => Gap.separates_of_append (hdue h))
          reason feed p current
      · have hlength : (before ++ (gap ++ (part ++ more))).length =
            (before ++ (gap ++ part)).length + more.length := by
          simp only [List.length_append, Nat.add_assoc]
        have hpos := List.length_pos_iff.mpr hmore
        have hlt : (before ++ (gap ++ part)).length <
            (before ++ (gap ++ (part ++ more))).length := by
          omega
        rw [← List.append_assoc] at hdue
        rw [hnone (.inl hlt) (Nat.le_of_lt hlt)]
        apply Tokenizer.FailsBehind.of_error
        exact Tokenizer.pull_of_part_failure hgap hreads (.inl hmore) hpart
          (fun h => Gap.separates_of_append (hdue h)) reason feed p current

namespace Tokenizer

/-- What comes of a document with these lexemes if one read fails. -/
structure NoticesFailure (document : List UInt8) (lexemes : List Lexeme) (failure : ReadFailure) :
    Prop where
  raised : failure.isSilent = false →
    (ofFeed (Feed.ofDocument document [failure])).FailsBehind
      (tokensWithout lexemes failure.offset) failure.reason
  /-- An interrupted read is repeated below the tokenizer, so there is nothing to notice. -/
  silent : failure.isSilent = true →
    (ofFeed (Feed.ofDocument document [failure])).transcript 0 = (ofBytes document).transcript 0

/-- **When a failed read is noticed.**  A document that is tokenized to its end has lexemes, and
wherever these lie, and wherever one read fails, the tokens that do not need the missing byte are
given and no others.  So of the tokens whose text is all there only a number is kept back, and only
if the read directly behind it fails. -/
theorem noticesFailure_of_delivers {document : List UInt8} {tokens : List Token}
    (h : (ofBytes document).Delivers tokens) :
    (∃ lexemes, Layout [] false [] document lexemes) ∧
      ∀ lexemes, Layout [] false [] document lexemes →
        lexemes.map Lexeme.token = tokens ∧
          ∀ failure : ReadFailure, failure.offset ≤ document.length →
            NoticesFailure document lexemes failure := by
  refine ⟨(delivers_ofBytes_iff.mp h).exists_layout [], ?_⟩
  intro lexemes hlayout
  refine ⟨(delivers_ofBytes_iff.mpr hlayout.succession).unique h, ?_⟩
  intro failure hoffset
  have hlength : ([] ++ document.take failure.offset).length = failure.offset := by
    rw [List.nil_append, List.length_take, Nat.min_eq_left hoffset]
  have hsplit := (List.take_append_drop failure.offset document).symm
  constructor
  · intro hsilent
    have hfails := hlayout.failsBehind hsplit failure.reason
      (Feed.ofBytes (document.drop failure.offset)) Position.start none
    rw [hlength] at hfails
    rw [Feed.ofDocument_singleton hoffset hsilent]
    exact hfails
  · intro hsilent
    rw [Feed.ofDocument_of_isSilent document hsilent]
    rfl

/-- In `[1]` the number has to wait for the bracket, whose read fails. -/
theorem noticesFailure_of_delivers_number :
    (ofFeed (Feed.ofDocument [0x5b, 0x31, 0x5d] [⟨2, "lost"⟩])).FailsBehind
      [⟨.startOf .array, none, 0⟩] "lost" := by
  have hdelivers : (ofBytes [0x5b, 0x31, 0x5d]).Delivers
      [⟨.startOf .array, none, 0⟩, ⟨.number, some "1", 1⟩, ⟨.endOf .array, none, 0⟩] :=
    delivers_cons_iff.mpr ⟨_, rfl, delivers_cons_iff.mpr ⟨_, rfl, delivers_cons_iff.mpr
      ⟨_, rfl, delivers_nil_iff.mpr ⟨_, rfl⟩⟩⟩⟩
  have htext : NumberText [0x31] := NumberPhase.numberText_iff.mpr ⟨.whole, rfl, rfl⟩
  have hends : NumberEnds [0x31] (Feed.ofBytes [0x5d]) := numberEnds_of_byte htext (by decide) []
  have hwants : Nesting.WantsValue [⟨.array, .valueOrEnd⟩] := rfl
  have hlayout : Layout [] false [] [0x5b, 0x31, 0x5d]
      [⟨⟨.startOf .array, none, 0⟩, 0, 1⟩, ⟨⟨.number, some "1", 1⟩, 1, 2⟩,
        ⟨⟨.endOf .array, none, 0⟩, 2, 3⟩] := by
    have hclosing : Layout [⟨.array, .commaOrEnd⟩] false [0x5b, 0x31] [0x5d]
        [⟨⟨.endOf .array, none, 0⟩, 2, 3⟩] :=
      .step .nil (.exit rfl) (by simp) (by simp) (.done blanks_nil)
    have hnumber : Layout [⟨.array, .valueOrEnd⟩] false [0x5b] [0x31, 0x5d]
        [⟨⟨.number, some "1", 1⟩, 1, 2⟩, ⟨⟨.endOf .array, none, 0⟩, 2, 3⟩] :=
      .step .nil (.scalar hwants (.number htext) rfl rfl) (fun _ => hends) (by simp) hclosing
    have hopening : Nesting.Reads [] [0x5b] ⟨.startOf .array, none, 0⟩ [⟨.array, .valueOrEnd⟩] :=
      @Nesting.Reads.enter [] .array trivial
    exact .step .nil hopening (by simp) (by simp) hnumber
  obtain ⟨-, hplaces⟩ := noticesFailure_of_delivers hdelivers
  obtain ⟨-, hnotices⟩ := hplaces _ hlayout
  exact (hnotices ⟨2, "lost"⟩ (by decide)).raised rfl

end Tokenizer
end RequiredKeys
