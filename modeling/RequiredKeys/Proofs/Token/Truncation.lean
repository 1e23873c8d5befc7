import RequiredKeys.Proofs.Token.Bracketing
import RequiredKeys.Proofs.Token.Retry

/-!
# Documents that are cut short

A document that is tokenized to its end is cut behind any of its bytes.  What is left gives the
tokens whose text is all there, and then it ends, or it fails where the cut is.

* `Layout` is a row of lexemes with the place of each in the document, so that it can be told
  where a cut falls.
* In a gap a cut leaves a gap (`Nesting.crosses_append_iff`), and inside a lexeme the scan that
  reads it meets the end of the input (`Tokenizer.pull_of_part`).  Strings, keys and words then
  lack bytes.  A number does not know its end: what is left of it may be a number, or it lacks
  the digit that its last byte calls for (`NumberPhase.isSome_lacking?_of_afterAll?`).
* `CutShort` says what comes of it, and `Layout.exists_cutShort` follows the row up to the cut.
-/

namespace RequiredKeys

open Ascii

/-! ## Places -/

/-- A token with the place of its text in a document, from the byte `start` up to `stop`. -/
structure Lexeme where
  token : Token
  start : Nat
  stop : Nat

namespace Lexeme

/-- A cut behind the first `cut` bytes falls inside the text of the token. -/
def Encloses (lexeme : Lexeme) (cut : Nat) : Prop :=
  lexeme.start < cut ∧ cut < lexeme.stop

/-- What a text that is cut short has of the token. -/
def part (lexeme : Lexeme) (text : List UInt8) : List UInt8 :=
  text.drop lexeme.start

/-- The cut falls inside a number, and what is left of it is a number too, that of `shorter`. -/
def Shortened (lexeme : Lexeme) (text : List UInt8) (shorter : Token) : Prop :=
  lexeme.Encloses text.length ∧ lexeme.token.kind = .number ∧ NumberText (lexeme.part text) ∧
    shorter = ⟨.number, some (Json.Reader.asciiText (lexeme.part text)), lexeme.token.depth⟩

/-- The cut falls inside the token, and what is left of it is no token. -/
def Broken (lexeme : Lexeme) (text : List UInt8) : Prop :=
  lexeme.Encloses text.length ∧
    ¬ (lexeme.token.kind = .number ∧ NumberText (lexeme.part text))

/-- The cut falls inside a number, directly behind a byte that calls for a digit. -/
def LacksDigit (lexeme : Lexeme) (text : List UInt8) : Prop :=
  lexeme.Encloses text.length ∧ lexeme.token.kind = .number ∧
    ∃ b ∈ text.getLast?, awaitsDigit b = true

end Lexeme

/-- `Layout nesting due before bytes lexemes`: behind `before` the document goes on with `bytes`,
a row of lexemes at these places. -/
inductive Layout : Nesting → Bool → List UInt8 → List UInt8 → List Lexeme → Prop
  | done {due : Bool} {before bytes : List UInt8} (h : Blanks bytes) :
      Layout [] due before bytes []
  | step {nesting inner after : Nesting} {due : Bool} {before gap lexeme rest : List UInt8}
      {token : Token} {lexemes : List Lexeme} (hgap : nesting.Crosses gap inner)
      (hreads : inner.Reads lexeme token after)
      (hends : token.kind = .number → NumberEnds lexeme (Feed.ofBytes rest))
      (hdue : due = true → ∀ b ∈ (gap ++ lexeme).head?, Gap.separates b = true)
      (hrest : Layout after (token.kind.isScalar && after.isEmpty) (before ++ (gap ++ lexeme)) rest
        lexemes) :
      Layout nesting due before (gap ++ lexeme ++ rest)
        (⟨token, (before ++ gap).length, (before ++ (gap ++ lexeme)).length⟩ :: lexemes)

/-- The lexemes of a row have places. -/
theorem Succession.exists_layout {nesting : Nesting} {due : Bool} {bytes : List UInt8}
    {tokens : List Token} (h : Succession nesting due bytes tokens) (before : List UInt8) :
    ∃ lexemes, Layout nesting due before bytes lexemes := by
  induction h generalizing before with
  | done hblanks => exact ⟨[], .done hblanks⟩
  | @step _ _ _ _ gap lexeme _ _ _ hgap hreads hends hdue _ ih =>
      obtain ⟨lexemes, hlayout⟩ := ih (before ++ (gap ++ lexeme))
      exact ⟨_, .step hgap hreads hends hdue hlayout⟩

theorem Layout.succession {nesting : Nesting} {due : Bool} {before bytes : List UInt8}
    {lexemes : List Lexeme} (h : Layout nesting due before bytes lexemes) :
    Succession nesting due bytes (lexemes.map Lexeme.token) := by
  induction h with
  | done hblanks => exact .done hblanks
  | step hgap hreads hends hdue _ ih => exact .step hgap hreads hends hdue ih

/-- The lexemes of a row lie behind what stands in front of the row. -/
theorem Layout.length_le_start {nesting : Nesting} {due : Bool} {before bytes : List UInt8}
    {lexemes : List Lexeme} (h : Layout nesting due before bytes lexemes) :
    ∀ lexeme ∈ lexemes, before.length ≤ lexeme.start ∧ lexeme.start ≤ lexeme.stop := by
  induction h with
  | done _ => simp
  | step _ _ _ _ _ ih =>
      intro lexeme hmem
      cases hmem with
      | head => simp
      | tail _ hmem =>
          have hbehind := ih lexeme hmem
          rw [List.length_append] at hbehind
          omega

/-! ## The end of the input in the middle of a token -/

/-- A part of a gap is a gap. -/
theorem Nesting.crosses_append_iff {nesting inner : Nesting} {left right : List UInt8} :
    nesting.Crosses (left ++ right) inner ↔
      ∃ mid, nesting.Crosses left mid ∧ mid.Crosses right inner := by
  constructor
  · intro h
    induction left generalizing nesting with
    | nil => exact ⟨nesting, .nil, h⟩
    | cons b left ih =>
        obtain ⟨next, hfirst, hrest⟩ := crosses_cons_iff.mp h
        obtain ⟨mid, hleft, hright⟩ := ih hrest
        exact ⟨mid, hfirst.append hleft, hright⟩
  · rintro ⟨mid, hleft, hright⟩
    exact hleft.append hright

theorem Gap.separates_of_append {left right : List UInt8}
    (h : ∀ b ∈ (left ++ right).head?, separates b = true) :
    ∀ b ∈ left.head?, separates b = true := by
  cases left with
  | nil => simp
  | cons b left => exact h

namespace TokenStart

/-- What the gap leaves of a part is what it leaves of the token, as far as the part goes. -/
theorem remainder_append (start : TokenStart) (b : UInt8) (tail more : List UInt8) :
    start.remainder (b :: tail ++ more) = start.remainder (b :: tail) ++ more := by
  unfold remainder
  cases start.takesFirst <;> rfl

/-- A string needs its closing quote. -/
theorem result_run_quoted {body part more : List UInt8} {text : String}
    (htext : Spelling body text.toList) (hbytes : body ++ [quote] = part ++ more)
    (hmore : more ≠ []) (p : Position) :
    (PartialQuoted.scanner.run {} ⟨Feed.ofBytes part, p⟩).result =
      .error (.truncated (p.afterAll part)) := by
  have hwhole : ∃ last, PartialQuoted.scanner.Completes {} (part ++ more) [] last (.ok text) :=
    PartialQuoted.completes_ok_iff.mpr ⟨body, hbytes.symm, htext⟩
  obtain ⟨last, hcompletes⟩ := hwhole
  exact hcompletes.result_run_part hmore .truncated (fun _ _ => rfl) p

/-- A word needs its last byte. -/
theorem result_run_word {literal : Literal} {part more : List UInt8}
    (hbytes : part ++ more = literal.bytes) (hmore : more ≠ []) (p : Position) :
    (literal.scanner.run literal.bytes ⟨Feed.ofBytes part, p⟩).result =
      .error (.truncated (p.afterAll part)) := by
  have hwhole : ∃ last, literal.scanner.Completes literal.bytes (part ++ more) [] last (.ok ()) :=
    Literal.completes_ok_iff.mpr hbytes
  obtain ⟨last, hcompletes⟩ := hwhole
  refine hcompletes.result_run_part hmore .truncated ?_ p
  intro mid hmid
  obtain ⟨-, hne⟩ := (Literal.afterAll?_eq_some_iff literal.bytes_ne_nil).mp hmid
  simp [Literal.scanner, hne]

/-- A number needs a digit where its last byte calls for one. -/
theorem result_run_number {part more : List UInt8} {phase : NumberPhase} {digit : NumberPart}
    (htext : NumberText (part ++ more)) (hmore : more ≠ [])
    (hphase : NumberPhase.start.afterAll? part = some phase) (hdigit : phase.lacking? = some digit)
    (p : Position) :
    (PartialNumber.scanner.run {} ⟨Feed.ofBytes part, p⟩).result =
      .error (.malformed (p.afterAll part) (.missingDigit digit)) := by
  have hwhole : ∃ last, PartialNumber.scanner.Completes {} (part ++ more) [] last (.ok _) :=
    PartialNumber.completes_ok_iff.mpr ⟨htext, .inl rfl, rfl⟩
  obtain ⟨last, hcompletes⟩ := hwhole
  refine hcompletes.result_run_part hmore (.malformed (.missingDigit digit)) ?_ p
  intro mid hmid
  obtain ⟨hmid, -⟩ := PartialNumber.afterAll?_scanner_eq_some.mp hmid
  obtain rfl : phase = mid.phase := Option.some.inj (hphase.symm.trans hmid)
  simp [PartialNumber.scanner, PartialNumber.close, hdigit]

/-- **Inside a token that is no number the input must not end.**  Brackets have no inside. -/
theorem Finishes.result_read_part {start : TokenStart} {filled after : Nesting}
    {part more : List UInt8} {rest : Feed} {token : Token}
    (h : start.Finishes filled (part ++ more) rest token after) (hmore : more ≠ [])
    (hkind : token.kind ≠ .number) (p : Position) :
    (start.read filled ⟨Feed.ofBytes part, p⟩).result = .error (.truncated (p.afterAll part)) := by
  generalize hbytes : part ++ more = bytes at h
  cases h with
  | enter => exact absurd (List.append_eq_nil_iff.mp hbytes).2 hmore
  | exit => exact absurd (List.append_eq_nil_iff.mp hbytes).2 hmore
  | key hname =>
      have hrun := result_run_quoted hname hbytes.symm hmore p
      simp only [read, hrun]
  | string htext =>
      have hrun := result_run_quoted htext hbytes.symm hmore p
      simp only [read, ofScan, hrun]
      rfl
  | number htext hends => exact absurd rfl hkind
  | bool =>
      have hrun := result_run_word hbytes hmore p
      simp only [read, ofScan, hrun]
      rfl
  | null =>
      have hrun := result_run_word hbytes hmore p
      simp only [read, ofScan, hrun]
      rfl

end TokenStart

namespace Tokenizer

/-- Where the first scan of a pull comes to a token and the second one to an error, the pull ends
with this error, behind all that it has read. -/
theorem pull_of_read_error {nesting inner filled : Nesting} {gap tail : List UInt8} {b : UInt8}
    {start : TokenStart} {due : Bool} {rest : Feed} (error : Position → StreamError)
    (hgap : nesting.Crosses gap inner) (hbegins : inner.Begins b start filled)
    (hdue : due = true → ∀ c ∈ (gap ++ b :: tail).head?, Gap.separates c = true)
    (hread : ∀ q : Position,
      (start.read filled ⟨Feed.ofBytes (start.remainder (b :: tail)) ++ rest, q⟩).result =
        .error (error (q.afterAll (start.remainder (b :: tail)))))
    (p : Position) (current : Option Token) :
    ∃ next, pull ⟨⟨Feed.ofBytes (gap ++ b :: tail) ++ rest, p⟩, nesting, due, current⟩ =
      (.error (error (p.afterAll (gap ++ b :: tail))), next) := by
  obtain ⟨taken, hbytes, hcross⟩ := crossGap_of_begins hgap hbegins hdue rest p current
  rw [hbytes, Position.afterAll_append, ← hbytes]
  unfold pull
  simp only [hcross, hread]
  exact ⟨_, rfl⟩

/-- A piece that is refused at the end of the input makes its pull fail there. -/
theorem pull_of_result_read {nesting inner filled : Nesting} {gap tail : List UInt8} {b : UInt8}
    {start : TokenStart} {due : Bool} (refusal : Refusal) (hgap : nesting.Crosses gap inner)
    (hbegins : inner.Begins b start filled)
    (hdue : due = true → ∀ c ∈ (gap ++ b :: tail).head?, Gap.separates c = true)
    (hread : ∀ q : Position,
      (start.read filled ⟨Feed.ofBytes (start.remainder (b :: tail)), q⟩).result =
        .error (refusal.seenAt (q.afterAll (start.remainder (b :: tail)))))
    (p : Position) (current : Option Token) :
    ∃ next, pull ⟨⟨Feed.ofBytes (gap ++ b :: tail), p⟩, nesting, due, current⟩ =
      (.error (refusal.seenAt (p.afterAll (gap ++ b :: tail))), next) := by
  have hend (q : Position) :
      (start.read filled ⟨Feed.ofBytes (start.remainder (b :: tail)) ++ [], q⟩).result =
        .error (refusal.seenAt (q.afterAll (start.remainder (b :: tail)))) := by
    rw [List.append_nil]
    exact hread q
  have hpull := pull_of_read_error (fun q => refusal.seenAt q) hgap hbegins hdue hend p current
  rwa [List.append_nil] at hpull

/-- **Where the input ends inside a token that is no number**, it ends too early. -/
theorem pull_of_part {nesting inner after : Nesting} {gap part more : List UInt8} {token : Token}
    {due : Bool} (hgap : nesting.Crosses gap inner)
    (hreads : inner.Reads (part ++ more) token after) (hkind : token.kind ≠ .number)
    (hpart : part ≠ []) (hmore : more ≠ [])
    (hdue : due = true → ∀ c ∈ (gap ++ part).head?, Gap.separates c = true) (p : Position)
    (current : Option Token) :
    ∃ next, pull ⟨⟨Feed.ofBytes (gap ++ part), p⟩, nesting, due, current⟩ =
      (.error (.truncated (p.afterAll (gap ++ part))), next) := by
  obtain ⟨b, tail, rfl⟩ := List.exists_cons_of_ne_nil hpart
  have hends (rest : Feed) (h : token.kind = .number) : NumberEnds (b :: tail ++ more) rest :=
    absurd h hkind
  obtain ⟨start, filled, c, hbegins, hhead, hfinishes⟩ := hreads.exists_begins (hends [])
  obtain rfl : b = c := Option.some.inj hhead
  rw [TokenStart.remainder_append] at hfinishes
  exact pull_of_result_read .truncated hgap hbegins hdue
    (hfinishes.result_read_part hmore hkind) p current

/-- **Where the input ends inside a number that lacks a digit**, the digit is missed. -/
theorem pull_of_part_number {nesting inner : Nesting} {gap part more : List UInt8} {due : Bool}
    {phase : NumberPhase} {digit : NumberPart} (hgap : nesting.Crosses gap inner)
    (hwants : inner.WantsValue) (htext : NumberText (part ++ more)) (hpart : part ≠ [])
    (hmore : more ≠ []) (hphase : NumberPhase.start.afterAll? part = some phase)
    (hdigit : phase.lacking? = some digit)
    (hdue : due = true → ∀ c ∈ (gap ++ part).head?, Gap.separates c = true) (p : Position)
    (current : Option Token) :
    ∃ next, pull ⟨⟨Feed.ofBytes (gap ++ part), p⟩, nesting, due, current⟩ =
      (.error (.malformed (p.afterAll (gap ++ part)) (.missingDigit digit)), next) := by
  obtain ⟨b, tail, rfl⟩ := List.exists_cons_of_ne_nil hpart
  have hbegins : inner.Begins b .number (inner.expect .commaOrEnd) :=
    .value hwants (.number (numberText_head htext))
  have hread (q : Position) :
      (TokenStart.number.read (inner.expect .commaOrEnd) ⟨Feed.ofBytes (b :: tail), q⟩).result =
        .error (.malformed (q.afterAll (b :: tail)) (.missingDigit digit)) := by
    have hrun := TokenStart.result_run_number htext hmore hphase hdigit q
    simp only [TokenStart.read, TokenStart.ofScan, hrun]
    rfl
  exact pull_of_result_read (.malformed (.missingDigit digit)) hgap hbegins hdue hread p current

/-- What a tokenizer answers that meets the end of the input between two tokens. -/
def endAnswer (containers : List Container) (p : Position) : Answer :=
  match containers with
  | [] => .ok none
  | _ :: _ => .error (.truncated p)

theorem transcript_of_nil (p : Position) (nesting : Nesting) (due : Bool)
    (current : Option Token) :
    (transcript ⟨⟨[], p⟩, nesting, due, current⟩ 0).1 = [endAnswer nesting.containers p] := by
  cases nesting with
  | nil => rw [transcript_of_end rfl]; rfl
  | cons frame outer => rw [transcript_of_error rfl]; rfl

/-- A gap makes no difference to the end of the input. -/
theorem transcript_of_gap {nesting inner : Nesting} {gap : List UInt8} {due : Bool}
    (hgap : nesting.Crosses gap inner)
    (hdue : due = true → ∀ b ∈ gap.head?, Gap.separates b = true) (p : Position)
    (current : Option Token) :
    (transcript ⟨⟨Feed.ofBytes gap, p⟩, nesting, due, current⟩ 0).1 =
      [endAnswer nesting.containers (p.afterAll gap)] := by
  have hpull := pull_of_gap hgap hdue [] p current none
  rw [List.append_nil] at hpull
  rw [transcript_congr hpull, transcript_of_nil, hgap.containers]

end Tokenizer

/-! ## What comes of a cut -/

/-- The tokens whose text is all in front of a cut. -/
def tokensBefore (lexemes : List Lexeme) (cut : Nat) : List Token :=
  (lexemes.filter (fun lexeme => decide (lexeme.stop ≤ cut))).map Lexeme.token

/-- What comes of a document with these lexemes of which `text` is left: behind the tokens
`given`, which are there as before, comes perhaps a `shorter` number, and then the `answer`,
which is not a token.  The text ends at `p`. -/
structure CutShort (lexemes : List Lexeme) (text : List UInt8) (given : List Token) (p : Position)
    (shorter : Option Token) (answer : Tokenizer.Answer) : Prop where
  /-- A number comes that the document does not have exactly if the cut leaves one. -/
  shorter_iff : ∀ token, shorter = some token ↔
    ∃ lexeme ∈ lexemes, lexeme.Shortened text token
  /-- Every failure is located at the cut. -/
  answer_cases : answer = .ok none ∨ answer = .error (.truncated p) ∨
    ∃ digit, answer = .error (.malformed p (.missingDigit digit))
  /-- The input just ends exactly if nothing is open and no token is broken. -/
  ends_iff : answer = .ok none ↔
    given.countP Token.isOpening = given.countP Token.isClosing ∧
      ¬ ∃ lexeme ∈ lexemes, lexeme.Broken text
  /-- The text is malformed exactly if it ends in a number that lacks a digit. -/
  malformed_iff : (∃ digit, answer = .error (.malformed p (.missingDigit digit))) ↔
    ∃ lexeme ∈ lexemes, lexeme.LacksDigit text

/-- Nothing is open exactly if as many brackets have been closed as opened. -/
theorem Opens.eq_nil_iff {containers : List Container} {tokens : List Token}
    (h : Opens containers tokens) :
    containers = [] ↔ tokens.countP Token.isOpening = tokens.countP Token.isClosing := by
  have hlength := h.length_add_countP
  rw [← List.length_eq_zero_iff]
  omega

theorem Tokenizer.endAnswer_eq_end_iff {containers : List Container} {p : Position} :
    endAnswer containers p = .ok none ↔ containers = [] := by
  cases containers <;> simp [endAnswer]

namespace CutShort

variable {lexeme : Lexeme} {lexemes : List Lexeme} {text : List UInt8} {given : List Token}
  {containers : List Container} {p : Position} {shorter : Option Token} {answer : Tokenizer.Answer}

/-- A lexeme in front of the cut makes no difference. -/
theorem cons_of_stop_le (h : CutShort lexemes text given p shorter answer)
    (hstop : lexeme.stop ≤ text.length) :
    CutShort (lexeme :: lexemes) text given p shorter answer := by
  have houtside : ¬ lexeme.Encloses text.length := by
    intro hinside
    exact absurd hinside.2 (Nat.not_lt.mpr hstop)
  have hskip {P : Lexeme → Prop} (hP : P lexeme → lexeme.Encloses text.length) :
      (∃ other ∈ lexeme :: lexemes, P other) ↔ ∃ other ∈ lexemes, P other := by
    have hnot : ¬ P lexeme := fun h => houtside (hP h)
    simp [hnot]
  exact {
    shorter_iff := fun token => (h.shorter_iff token).trans (hskip And.left).symm
    answer_cases := h.answer_cases
    ends_iff := by rw [hskip And.left]; exact h.ends_iff
    malformed_iff := h.malformed_iff.trans (hskip And.left).symm }

/-- A cut between two lexemes leaves all lexemes whole. -/
theorem of_outside (houtside : ∀ other ∈ lexemes, ¬ other.Encloses text.length)
    (hopens : Opens containers given) :
    CutShort lexemes text given p none (Tokenizer.endAnswer containers p) := by
  have hnone {P : Lexeme → Prop} (hP : ∀ other, P other → other.Encloses text.length) :
      ¬ ∃ other ∈ lexemes, P other := by
    rintro ⟨other, hmem, h⟩
    exact houtside other hmem (hP other h)
  exact {
    shorter_iff := fun token => by simpa using hnone (fun _ h => h.1)
    answer_cases := by cases containers <;> simp [Tokenizer.endAnswer]
    ends_iff := by
      rw [Tokenizer.endAnswer_eq_end_iff, hopens.eq_nil_iff]
      exact ⟨fun h => ⟨h, hnone (fun _ h => h.1)⟩, And.left⟩
    malformed_iff := by
      apply iff_of_false _ (hnone (fun _ h => h.1))
      cases containers <;> simp [Tokenizer.endAnswer] }

/-- A cut inside a lexeme leaves what that lexeme makes of it. -/
theorem of_inside (hbehind : ∀ other ∈ lexemes, ¬ other.Encloses text.length)
    (hshorter : ∀ token, shorter = some token ↔ lexeme.Shortened text token)
    (hcases : answer = .ok none ∨ answer = .error (.truncated p) ∨
      ∃ digit, answer = .error (.malformed p (.missingDigit digit)))
    (hends : answer = .ok none ↔
      given.countP Token.isOpening = given.countP Token.isClosing ∧ ¬ lexeme.Broken text)
    (hmalformed : (∃ digit, answer = .error (.malformed p (.missingDigit digit))) ↔
      lexeme.LacksDigit text) :
    CutShort (lexeme :: lexemes) text given p shorter answer := by
  have honly (P : Lexeme → Prop) (hP : ∀ other, P other → other.Encloses text.length) :
      (∃ other ∈ lexeme :: lexemes, P other) ↔ P lexeme := by
    constructor
    · rintro ⟨other, hmem, h⟩
      cases hmem with
      | head => exact h
      | tail _ hmem => exact absurd (hP other h) (hbehind other hmem)
    · intro h
      exact ⟨lexeme, List.mem_cons_self, h⟩
  exact {
    shorter_iff := fun token => (hshorter token).trans
      (honly (·.Shortened text token) (fun _ h => h.1)).symm
    answer_cases := hcases
    ends_iff := by rw [honly (·.Broken text) (fun _ h => h.1)]; exact hends
    malformed_iff := hmalformed.trans (honly (·.LacksDigit text) (fun _ h => h.1)).symm }

/-- A cut breaks every token but a number. -/
theorem of_broken (hinside : lexeme.Encloses text.length)
    (hbehind : ∀ other ∈ lexemes, ¬ other.Encloses text.length)
    (hkind : lexeme.token.kind ≠ .number) :
    CutShort (lexeme :: lexemes) text given p none (.error (.truncated p)) := by
  apply of_inside hbehind
  · simp [Lexeme.Shortened, hkind]
  · exact .inr (.inl rfl)
  · simp [Lexeme.Broken, hinside, hkind]
  · simp [Lexeme.LacksDigit, hkind]

/-- A cut breaks a number directly behind a byte that calls for a digit. -/
theorem of_lacking (hinside : lexeme.Encloses text.length)
    (hbehind : ∀ other ∈ lexemes, ¬ other.Encloses text.length)
    (hkind : lexeme.token.kind = .number) (hpart : ¬ NumberText (lexeme.part text))
    (hlast : ∃ b ∈ text.getLast?, awaitsDigit b = true) (digit : NumberPart) :
    CutShort (lexeme :: lexemes) text given p none
      (.error (.malformed p (.missingDigit digit))) := by
  apply of_inside hbehind
  · simp [Lexeme.Shortened, hpart]
  · exact .inr (.inr ⟨digit, rfl⟩)
  · simp [Lexeme.Broken, hinside, hpart]
  · exact ⟨fun _ => ⟨hinside, hkind, hlast⟩, fun _ => ⟨digit, rfl⟩⟩

/-- A cut behind any other byte of a number leaves a number. -/
theorem of_shortened (hinside : lexeme.Encloses text.length)
    (hbehind : ∀ other ∈ lexemes, ¬ other.Encloses text.length)
    (hkind : lexeme.token.kind = .number) (hpart : NumberText (lexeme.part text))
    (hlast : ¬ ∃ b ∈ text.getLast?, awaitsDigit b = true) (hopens : Opens containers given) :
    CutShort (lexeme :: lexemes) text given p
      (some ⟨.number, some (Json.Reader.asciiText (lexeme.part text)), lexeme.token.depth⟩)
      (Tokenizer.endAnswer containers p) := by
  apply of_inside hbehind
  · intro token
    simp [Lexeme.Shortened, hinside, hkind, hpart, eq_comm]
  · cases containers <;> simp [Tokenizer.endAnswer]
  · rw [Tokenizer.endAnswer_eq_end_iff, hopens.eq_nil_iff]
    simp [Lexeme.Broken, hkind, hpart]
  · apply iff_of_false
    · cases containers <;> simp [Tokenizer.endAnswer]
    · exact fun h => hlast h.2.2

end CutShort

/-- What is left of a number is a number, or a digit is lacking behind its last byte. -/
theorem NumberText.part_cases {part more : List UInt8} (h : NumberText (part ++ more))
    (hpart : part ≠ []) :
    (NumberText part ∧ ¬ ∃ b ∈ part.getLast?, awaitsDigit b = true) ∨
      (¬ NumberText part ∧ ∃ b ∈ part.getLast?, awaitsDigit b = true) ∧
        ∃ phase digit, NumberPhase.start.afterAll? part = some phase ∧
          phase.lacking? = some digit := by
  obtain ⟨phase, hphase, -⟩ := NumberPhase.continues_append.mp
    (show NumberPhase.start.Continues (part ++ more) from h)
  have hnumber : NumberText part ↔ phase.lacking? = none := by
    rw [NumberPhase.numberText_iff, hphase]
    simp
  have hlast : (∃ b ∈ part.getLast?, awaitsDigit b = true) ↔ phase.lacking?.isSome = true := by
    rw [← List.dropLast_concat_getLast hpart] at hphase ⊢
    rw [NumberPhase.isSome_lacking?_of_afterAll? hphase, List.getLast?_concat]
    simp
  rw [hnumber, hlast]
  cases hdigit : phase.lacking? with
  | none => simp
  | some digit => exact .inr ⟨by simp, phase, digit, hphase, hdigit⟩

namespace Tokenizer

variable {nesting inner after : Nesting} {due : Bool} {before gap part more : List UInt8}
  {token : Token} {lexemes : List Lexeme} {given : List Token}

/-- **A cut inside a lexeme.**  Whatever token it is, the bytes in front of the lexeme are still
a gap; behind them a number may be left, and everything else is broken. -/
theorem exists_cutShort_of_part (hgap : nesting.Crosses gap inner)
    (hreads : inner.Reads (part ++ more) token after) (hpart : part ≠ []) (hmore : more ≠ [])
    (hdue : due = true → ∀ b ∈ (gap ++ part).head?, Gap.separates b = true)
    (hopens : Opens nesting.containers given)
    (hbehind : ∀ other ∈ lexemes, ¬ other.Encloses (before ++ (gap ++ part)).length)
    (p : Position) (current : Option Token) :
    ∃ shorter answer,
      (transcript ⟨⟨Feed.ofBytes (gap ++ part), p⟩, nesting, due, current⟩ 0).1 =
          shorter.toList.map (fun token => .ok (some token)) ++ [answer] ∧
        CutShort (⟨token, (before ++ gap).length, (before ++ (gap ++ (part ++ more))).length⟩ ::
          lexemes) (before ++ (gap ++ part)) given (p.afterAll (gap ++ part)) shorter answer := by
  have hinside : Lexeme.Encloses
      ⟨token, (before ++ gap).length, (before ++ (gap ++ (part ++ more))).length⟩
      (before ++ (gap ++ part)).length := by
    have hpartLength := List.length_pos_iff.mpr hpart
    have hmoreLength := List.length_pos_iff.mpr hmore
    simp only [Lexeme.Encloses, List.length_append]
    omega
  by_cases hkind : token.kind = .number
  · have hleft : Lexeme.part
        ⟨token, (before ++ gap).length, (before ++ (gap ++ (part ++ more))).length⟩
        (before ++ (gap ++ part)) = part := by
      show (before ++ (gap ++ part)).drop (before ++ gap).length = part
      rw [← List.append_assoc, List.drop_left]
    have hlast : (before ++ (gap ++ part)).getLast? = part.getLast? := by
      rw [← List.append_assoc, List.getLast?_append, List.getLast?_eq_some_getLast hpart]
      rfl
    obtain ⟨hwants, htext, htoken, rfl⟩ := hreads.of_number hkind
    obtain ⟨hnumber, hdigit⟩ | ⟨⟨hnumber, hdigit⟩, phase, digit, hphase, hlacking⟩ :=
      htext.part_cases hpart
    · have hshort : inner.Reads part ⟨.number, some (Json.Reader.asciiText part), inner.length⟩
          (inner.expect .commaOrEnd) := .scalar hwants (.number hnumber) rfl rfl
      have hpull := pull_of_lexeme hgap hshort (fun _ => .inl rfl) hdue p current
      rw [List.append_nil] at hpull
      refine ⟨some _, endAnswer nesting.containers _, ?_,
        .of_shortened hinside hbehind hkind (by rwa [hleft]) (by rwa [hlast]) hopens⟩
      rw [transcript_of_token hpull, transcript_of_nil, Nesting.containers_expect, hgap.containers,
        hleft, htoken]
      rfl
    · obtain ⟨next, hpull⟩ := pull_of_part_number hgap hwants htext hpart hmore hphase hlacking hdue
        p current
      refine ⟨none, _, by rw [transcript_of_error hpull]; rfl, ?_⟩
      rw [← hlast] at hdigit
      exact .of_lacking hinside hbehind hkind (by rwa [hleft]) hdigit digit
  · obtain ⟨next, hpull⟩ := pull_of_part hgap hreads hkind hpart hmore hdue p current
    refine ⟨none, _, by rw [transcript_of_error hpull]; rfl, ?_⟩
    exact .of_broken hinside hbehind hkind

end Tokenizer

/-- The tokens in front of a cut are those whose lexemes end there. -/
theorem tokensBefore_cons_of_le {lexeme : Lexeme} {lexemes : List Lexeme} {cut : Nat}
    (h : lexeme.stop ≤ cut) :
    tokensBefore (lexeme :: lexemes) cut = lexeme.token :: tokensBefore lexemes cut := by
  simp [tokensBefore, h]

theorem tokensBefore_cons_of_lt {lexeme : Lexeme} {lexemes : List Lexeme} {cut : Nat}
    (h : cut < lexeme.stop) : tokensBefore (lexeme :: lexemes) cut = tokensBefore lexemes cut := by
  simp [tokensBefore, h]

/-- A cut in front of a row reaches none of its lexemes. -/
theorem Layout.unreached {nesting : Nesting} {due : Bool} {before bytes : List UInt8}
    {lexemes : List Lexeme} (h : Layout nesting due before bytes lexemes) {cut : Nat}
    (hcut : cut < before.length) :
    tokensBefore lexemes cut = [] ∧ ∀ lexeme ∈ lexemes, ¬ lexeme.Encloses cut := by
  constructor
  · have hstop (lexeme : Lexeme) (hmem : lexeme ∈ lexemes) : cut < lexeme.stop := by
      have hplace := h.length_le_start lexeme hmem
      omega
    simpa [tokensBefore] using hstop
  · intro lexeme hmem henclosed
    have hplace := h.length_le_start lexeme hmem
    have hstart := henclosed.1
    omega

/-- A cut falls behind a lexeme, into the gap in front of it, or inside it. -/
theorem cut_cases {gap lexeme rest taken left : List UInt8}
    (h : gap ++ lexeme ++ rest = taken ++ left) :
    (∃ later, taken = gap ++ lexeme ++ later ∧ rest = later ++ left) ∨
      (∃ behind, gap = taken ++ behind) ∨
      ∃ part more, part ≠ [] ∧ more ≠ [] ∧ taken = gap ++ part ∧ lexeme = part ++ more := by
  obtain ⟨later, htaken, hrest⟩ | ⟨more, hlexeme, hleft⟩ := List.append_eq_append_iff.mp h
  · exact .inl ⟨later, htaken, hrest⟩
  · obtain ⟨part, htaken, hpart⟩ | ⟨behind, hgap, -⟩ := List.append_eq_append_iff.mp hlexeme
    · by_cases hpartNil : part = []
      · exact .inr (.inl ⟨[], by simp [htaken, hpartNil]⟩)
      · by_cases hmoreNil : more = []
        · exact .inl ⟨[], by simp [htaken, hpart, hmoreNil], by simp [hleft, hmoreNil]⟩
        · exact .inr (.inr ⟨part, more, hpartNil, hmoreNil, htaken, hpart⟩)
    · exact .inr (.inl ⟨behind, hgap⟩)

/-- **Along a row of lexemes up to a cut.**  The induction is on the row.  Lexemes in front of the
cut are read as before; then the cut falls into a gap or into a lexeme. -/
theorem Layout.exists_cutShort {nesting : Nesting} {due : Bool} {before bytes : List UInt8}
    {lexemes : List Lexeme} (h : Layout nesting due before bytes lexemes) {given : List Token}
    (hopens : Opens nesting.containers given) {taken left : List UInt8}
    (hbytes : bytes = taken ++ left) (p : Position) (current : Option Token) :
    ∃ shorter answer,
      (Tokenizer.transcript ⟨⟨Feed.ofBytes taken, p⟩, nesting, due, current⟩ 0).1 =
          (tokensBefore lexemes (before ++ taken).length ++ shorter.toList).map
            (fun token => .ok (some token)) ++ [answer] ∧
        CutShort lexemes (before ++ taken)
          (given ++ tokensBefore lexemes (before ++ taken).length) (p.afterAll taken)
          shorter answer := by
  induction h generalizing given taken p current with
  | @done due before bytes hblanks =>
      have htaken : Blanks taken := by
        rw [hbytes, blanks_append] at hblanks
        exact hblanks.1
      have hdue : due = true → ∀ b ∈ taken.head?, Gap.separates b = true := by
        intro _ b hb
        exact Gap.separates_of_isBlank (htaken b (List.mem_of_mem_head? hb))
      refine ⟨none, _, Tokenizer.transcript_of_gap (.of_blanks htaken) hdue p current, ?_⟩
      rw [show tokensBefore [] _ = [] from rfl, List.append_nil]
      exact .of_outside (by simp) hopens
  | @step nesting inner after due before gap lexeme rest token lexemes hgap hreads hends hdue hrest
      ih =>
      obtain ⟨later, rfl, rfl⟩ | hinside := cut_cases hbytes
      · have hpull := Tokenizer.pull_of_lexeme hgap hreads (fun hkind => (hends hkind).of_append) hdue
          p current
        have hturns := hreads.turns
        rw [hgap.containers] at hturns
        obtain ⟨shorter, answer, hrun, hcut⟩ := ih (hopens.turn hturns) rfl
          (p.afterAll (gap ++ lexeme)) (some token)
        have hstop : (before ++ (gap ++ lexeme)).length ≤
            (before ++ (gap ++ lexeme) ++ later).length := by
          simp only [List.length_append]
          omega
        have hthere : tokensBefore (⟨token, (before ++ gap).length,
            (before ++ (gap ++ lexeme)).length⟩ :: lexemes) _ = token :: _ :=
          tokensBefore_cons_of_le hstop
        have htext : before ++ (gap ++ lexeme ++ later) = before ++ (gap ++ lexeme) ++ later :=
          (List.append_assoc before _ _).symm
        rw [htext, Position.afterAll_append, hthere]
        refine ⟨shorter, answer, ?_, ?_⟩
        · rw [Feed.ofBytes_append (gap ++ lexeme), Tokenizer.transcript_of_token hpull, hrun]
          rfl
        · rw [List.append_assoc given] at hcut
          exact hcut.cons_of_stop_le hstop
      · -- What the cut leaves is shorter than the gap with the lexeme, and no other one is reached.
        have hcut : (before ++ taken).length < (before ++ (gap ++ lexeme)).length := by
          have hne := List.length_pos_iff.mpr hreads.ne_nil
          obtain ⟨behind, rfl⟩ | ⟨part, more, -, hmore, rfl, rfl⟩ := hinside
          · simp only [List.length_append]
            omega
          · have hmore := List.length_pos_iff.mpr hmore
            simp only [List.length_append]
            omega
        obtain ⟨hnone, houtside⟩ := hrest.unreached hcut
        have hthere : tokensBefore (⟨token, (before ++ gap).length,
            (before ++ (gap ++ lexeme)).length⟩ :: lexemes) _ = _ := tokensBefore_cons_of_lt hcut
        rw [hthere, hnone, List.append_nil]
        obtain ⟨behind, rfl⟩ | ⟨part, more, hpart, hmore, rfl, rfl⟩ := hinside
        · obtain ⟨mid, hpart, -⟩ := Nesting.crosses_append_iff.mp hgap
          rw [List.append_assoc] at hdue
          have hfirst (h : due = true) := Gap.separates_of_append (hdue h)
          refine ⟨none, _, Tokenizer.transcript_of_gap hpart hfirst p current, ?_⟩
          refine .of_outside ?_ hopens
          intro other hmem henclosed
          cases hmem with
          | head =>
              have hstart : (before ++ (taken ++ behind)).length < (before ++ taken).length :=
                henclosed.1
              simp only [List.length_append] at hstart
              omega
          | tail _ hmem => exact houtside other hmem henclosed
        · rw [← List.append_assoc] at hdue
          exact Tokenizer.exists_cutShort_of_part hgap hreads hpart hmore
            (fun h => Gap.separates_of_append (hdue h)) hopens houtside p current

/-- **Documents that are cut short.**  A document that is tokenized to its end has lexemes, and
wherever these lie, of each cut the following holds.  The tokens come whose text is all there, then
perhaps the number that the cut leaves of a longer one, and then the end of the input, or one
failure that is located at the cut.  `CutShort` says which. -/
theorem Tokenizer.cutShort_of_delivers {document : List UInt8} {tokens : List Token}
    (h : (ofBytes document).Delivers tokens) :
    (∃ lexemes, Layout [] false [] document lexemes) ∧
      ∀ lexemes, Layout [] false [] document lexemes →
        lexemes.map Lexeme.token = tokens ∧
          ∀ cut < document.length, ∃ shorter answer,
            ((ofBytes (document.take cut)).transcript 0).1 =
                (tokensBefore lexemes cut ++ shorter.toList).map
                  (fun token => .ok (some token)) ++ [answer] ∧
              CutShort lexemes (document.take cut) (tokensBefore lexemes cut)
                (Position.start.afterAll (document.take cut)) shorter answer := by
  refine ⟨(delivers_ofBytes_iff.mp h).exists_layout [], ?_⟩
  intro lexemes hlayout
  refine ⟨(delivers_ofBytes_iff.mpr hlayout.succession).unique h, ?_⟩
  intro cut hcut
  have hopens : Opens (Nesting.containers []) [] := .nil
  have hsplit := (List.take_append_drop cut document).symm
  have hlength : ([] ++ document.take cut).length = cut := by
    rw [List.nil_append, List.length_take, Nat.min_eq_left (Nat.le_of_lt hcut)]
  obtain ⟨shorter, answer, hrun, hshort⟩ :=
    hlayout.exists_cutShort hopens hsplit Position.start none
  rw [hlength] at hrun hshort
  exact ⟨shorter, answer, hrun, hshort⟩

/-- Of `[10.5]` the beginning `[10.` gives the bracket and then misses a digit in column five. -/
theorem Tokenizer.cutShort_of_delivers_point :
    ∃ digit, ((ofBytes [0x5b, 0x31, 0x30, 0x2e]).transcript 0).1 =
      [.ok (some ⟨.startOf .array, none, 0⟩),
        .error (.malformed ⟨1, 5⟩ (.missingDigit digit))] := by
  have hdelivers : (ofBytes [0x5b, 0x31, 0x30, 0x2e, 0x35, 0x5d]).Delivers
      [⟨.startOf .array, none, 0⟩, ⟨.number, some "10.5", 1⟩, ⟨.endOf .array, none, 0⟩] :=
    delivers_cons_iff.mpr ⟨_, rfl, delivers_cons_iff.mpr ⟨_, rfl, delivers_cons_iff.mpr
      ⟨_, rfl, delivers_nil_iff.mpr ⟨_, rfl⟩⟩⟩⟩
  have htext : NumberText [0x31, 0x30, 0x2e, 0x35] :=
    NumberPhase.numberText_iff.mpr ⟨.fraction, rfl, rfl⟩
  have hpart : ¬ NumberText [0x31, 0x30, 0x2e] := by
    rw [NumberPhase.numberText_iff]
    rintro ⟨last, hlast, hlacking⟩
    obtain rfl : NumberPhase.point = last := Option.some.inj hlast
    cases hlacking
  have hends : NumberEnds [0x31, 0x30, 0x2e, 0x35] (Feed.ofBytes [0x5d]) :=
    numberEnds_of_byte htext (by decide) []
  have hwants : Nesting.WantsValue [⟨.array, .valueOrEnd⟩] := rfl
  have hlayout : Layout [] false [] [0x5b, 0x31, 0x30, 0x2e, 0x35, 0x5d]
      [⟨⟨.startOf .array, none, 0⟩, 0, 1⟩, ⟨⟨.number, some "10.5", 1⟩, 1, 5⟩,
        ⟨⟨.endOf .array, none, 0⟩, 5, 6⟩] := by
    have hclosing : Layout [⟨.array, .commaOrEnd⟩] false [0x5b, 0x31, 0x30, 0x2e, 0x35] [0x5d]
        [⟨⟨.endOf .array, none, 0⟩, 5, 6⟩] :=
      .step .nil (.exit rfl) (by simp) (by simp) (.done blanks_nil)
    have hnumber : Layout [⟨.array, .valueOrEnd⟩] false [0x5b] [0x31, 0x30, 0x2e, 0x35, 0x5d]
        [⟨⟨.number, some "10.5", 1⟩, 1, 5⟩, ⟨⟨.endOf .array, none, 0⟩, 5, 6⟩] :=
      .step .nil (.scalar hwants (.number htext) rfl rfl) (fun _ => hends) (by simp) hclosing
    have hopening : Nesting.Reads [] [0x5b] ⟨.startOf .array, none, 0⟩ [⟨.array, .valueOrEnd⟩] :=
      @Nesting.Reads.enter [] .array trivial
    exact .step .nil hopening (by simp) (by simp) hnumber
  obtain ⟨-, hcuts⟩ := cutShort_of_delivers hdelivers
  obtain ⟨-, hcut⟩ := hcuts _ hlayout
  obtain ⟨shorter, answer, hrun, hshort⟩ := hcut 4 (by decide)
  have hlacks : Lexeme.LacksDigit ⟨⟨.number, some "10.5", 1⟩, 1, 5⟩ [0x5b, 0x31, 0x30, 0x2e] :=
    ⟨⟨by decide, by decide⟩, rfl, 0x2e, rfl, by decide⟩
  obtain ⟨digit, rfl⟩ := hshort.malformed_iff.mpr ⟨_, by simp, hlacks⟩
  have hnone : shorter = none := by
    cases shorter with
    | none => rfl
    | some token =>
        obtain ⟨lexeme, hmem, -, hkind, hnumber, -⟩ := (hshort.shorter_iff token).mp rfl
        simp only [List.mem_cons, List.not_mem_nil, or_false] at hmem
        obtain rfl | rfl | rfl := hmem
        · cases hkind
        · exact absurd hnumber hpart
        · cases hkind
  rw [hnone] at hrun
  exact ⟨digit, hrun⟩

end RequiredKeys
