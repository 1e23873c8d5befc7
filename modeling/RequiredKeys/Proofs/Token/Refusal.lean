import RequiredKeys.Proofs.Token.Acceptance

/-!
# What is never accepted

The grammar says what the tokenizer accepts.  This module names what it never accepts:
trailing commas, missing commas and colons, keys that are no strings, leading zeros and
brackets that do not match.

* `Nesting.Flaw` describes these as bytes, by what is open in front of them.
* `Succession.of_crosses` goes over a gap: the rest of a row of lexemes is a row.
* `Nesting.Refuses` is a byte that neither goes on with a gap nor begins a token, so no
  row of lexemes goes on with it.  All flaws but one lead to such a byte.
* A leading zero is a number by itself, and the digit behind it is what is refused.

A flaw counts wherever it is met, behind any number of pulls (`Tokenizer.MeetsFlaw`).
-/

namespace RequiredKeys

open Ascii

namespace Nesting

/-- The brackets that close a container. -/
def closes (b : UInt8) : Prop :=
  b = closeBrace ∨ b = closeBracket

/-- `nesting.Flaw bytes`: in `nesting` the document goes on with `bytes`, and it should
not.  No white space is left in front. -/
inductive Flaw : Nesting → List UInt8 → Prop
  | trailingComma {frame : Frame} {outer : Nesting} {blanks rest : List UInt8}
      (hexpects : frame.expects = .commaOrEnd) (hblanks : Blanks blanks) :
      Flaw (frame :: outer) (comma :: (blanks ++ frame.closer :: rest))
  | missingComma {frame : Frame} {outer : Nesting} {b : UInt8} {rest : List UInt8}
      (hexpects : frame.expects = .commaOrEnd) (hblank : isBlank b = false) (hcomma : b ≠ comma)
      (hcloser : b ≠ frame.closer) : Flaw (frame :: outer) (b :: rest)
  | missingColon {outer : Nesting} {b : UInt8} {rest : List UInt8} (hblank : isBlank b = false)
      (hcolon : b ≠ colon) : Flaw (⟨.object, .colon⟩ :: outer) (b :: rest)
  | otherKey {expects : Expectation} {outer : Nesting} {b : UInt8} {rest : List UInt8}
      (hexpects : expects = .keyOrEnd ∨ expects = .key) (hblank : isBlank b = false)
      (hquote : b ≠ quote) (hcloser : b ≠ closeBrace) :
      Flaw (⟨.object, expects⟩ :: outer) (b :: rest)
  | leadingZero {nesting : Nesting} {sign rest : List UInt8} {d : UInt8}
      (hsign : OptionalMinus sign) (hdigit : isDigit d = true) :
      Flaw nesting (sign ++ zero :: d :: rest)
  | otherCloser {frame : Frame} {outer : Nesting} {b : UInt8} {rest : List UInt8}
      (hcloses : closes b) (hcloser : b ≠ frame.closer) : Flaw (frame :: outer) (b :: rest)
  | strayCloser {b : UInt8} {rest : List UInt8} (hcloses : closes b) : Flaw [] (b :: rest)

/-! ## Refused bytes -/

/-- A byte that neither goes on with a gap nor begins a token. -/
def Refuses (nesting : Nesting) (b : UInt8) : Prop :=
  (∀ next, ¬ nesting.Crosses [b] next) ∧ ∀ start filled, ¬ nesting.Begins b start filled

/-- At the root only white space and values are taken. -/
theorem refuses_root {b : UInt8} (hblank : isBlank b = false) (hvalue : beginsValue b = false) :
    Refuses [] b := by
  constructor
  · intro next h
    cases h with
    | blank hb _ =>
        rw [hblank] at hb
        contradiction
  · intro start filled h
    cases h with
    | value _ hb =>
        rw [hb.beginsValue] at hvalue
        contradiction

/-- Inside a container there are five ways to go on. -/
theorem refuses_cons {frame : Frame} {outer : Nesting} {b : UInt8} (hblank : isBlank b = false)
    (hpunctuation : frame.afterPunctuation? b = none)
    (hclose : frame.mayClose = true → b ≠ frame.closer)
    (hkey : frame.wantsKey = true → b ≠ quote)
    (hvalue : frame.wantsValue = true → beginsValue b = false) : Refuses (frame :: outer) b := by
  constructor
  · intro next h
    cases h with
    | blank hb _ =>
        rw [hblank] at hb
        contradiction
    | punctuation hb _ =>
        rw [hpunctuation] at hb
        contradiction
  · intro start filled h
    cases h with
    | exit hmay => exact hclose hmay rfl
    | key hwants => exact hkey hwants rfl
    | value hwants hb =>
        have hnone := hvalue hwants
        rw [hb.beginsValue] at hnone
        contradiction

/-- No byte both goes on with a gap and begins a token. -/
theorem not_begins_of_crosses {nesting next filled : Nesting} {b : UInt8} {start : TokenStart}
    (hcrosses : nesting.Crosses [b] next) : ¬ nesting.Begins b start filled := by
  intro hbegins
  have htake : Gap.onByte ⟨nesting, false⟩ b = .take ⟨next, false⟩ :=
    Gap.onByte_of_crosses (by simp) hcrosses
  rw [Gap.onByte_of_begins (by simp) hbegins] at htake
  exact start.verdict_ne_take _ _ htake

/-- A byte of a gap leads to one nesting. -/
theorem crosses_unique {nesting next other : Nesting} {b : UInt8}
    (hnext : nesting.Crosses [b] next) (hother : nesting.Crosses [b] other) : next = other := by
  have htake : Gap.onByte ⟨nesting, false⟩ b = .take ⟨next, false⟩ :=
    Gap.onByte_of_crosses (by simp) hnext
  rw [Gap.onByte_of_crosses (by simp) hother] at htake
  simpa using htake.symm

theorem crosses_cons_iff {nesting inner : Nesting} {b : UInt8} {gap : List UInt8} :
    nesting.Crosses (b :: gap) inner ↔
      ∃ next, nesting.Crosses [b] next ∧ next.Crosses gap inner := by
  constructor
  · intro h
    cases h with
    | blank hb h => exact ⟨nesting, .blank hb .nil, h⟩
    | punctuation hb h => exact ⟨_, .punctuation hb .nil, h⟩
  · rintro ⟨next, hfirst, hrest⟩
    exact hfirst.append hrest

/-- The first byte of a lexeme begins its token. -/
theorem Reads.begins {inner after : Nesting} {b : UInt8} {lexeme : List UInt8} {token : Token}
    (h : inner.Reads (b :: lexeme) token after) : ∃ start filled, inner.Begins b start filled := by
  -- What is delivered behind the lexeme does not matter; nothing is the easiest.
  have hends : token.kind = .number → NumberEnds (b :: lexeme) [] := fun _ => .inl rfl
  obtain ⟨start, filled, c, hbegins, hc, -⟩ := reads_iff.mp ⟨h, hends⟩
  obtain rfl : b = c := Option.some.inj hc
  exact ⟨start, filled, hbegins⟩

/-- A lexeme does not begin with a byte of a gap. -/
theorem Reads.not_crosses {nesting next after : Nesting} {b : UInt8} {tail : List UInt8}
    {token : Token} (h : nesting.Reads (b :: tail) token after) : ¬ nesting.Crosses [b] next := by
  intro hcrosses
  obtain ⟨start, filled, hbegins⟩ := h.begins
  exact not_begins_of_crosses hcrosses hbegins

/-- Where a gap and a lexeme begin with a byte of a gap, the byte belongs to this gap. -/
theorem Crosses.of_head {nesting inner next after : Nesting} {b : UInt8}
    {bytes gap lexeme rest : List UInt8} {token : Token} (hgap : nesting.Crosses gap inner)
    (hreads : inner.Reads lexeme token after) (hbytes : b :: bytes = gap ++ lexeme ++ rest)
    (hcrosses : nesting.Crosses [b] next) :
    ∃ tail, gap = b :: tail ∧ bytes = tail ++ lexeme ++ rest ∧ next.Crosses tail inner := by
  cases gap with
  | nil =>
      obtain rfl := crosses_nil_iff.mp hgap
      obtain ⟨c, tail, rfl⟩ := List.exists_cons_of_ne_nil hreads.ne_nil
      obtain ⟨rfl, -⟩ : b = c ∧ _ := by simpa using hbytes
      exact absurd hcrosses hreads.not_crosses
  | cons c gap =>
      obtain ⟨rfl, rfl⟩ : b = c ∧ bytes = gap ++ lexeme ++ rest := by simpa using hbytes
      obtain ⟨other, hfirst, hbehind⟩ := crosses_cons_iff.mp hgap
      obtain rfl := crosses_unique hcrosses hfirst
      exact ⟨gap, rfl, rfl, hbehind⟩

end Nesting

/-! ## Rows of lexemes -/

namespace Succession

variable {nesting inner : Nesting} {due : Bool} {b : UInt8} {bytes : List UInt8}
  {tokens : List Token}

/-- A row that does not begin with a gap begins with a lexeme. -/
theorem exists_lexeme (h : Succession nesting due (b :: bytes) tokens)
    (hgap : ∀ next, ¬ nesting.Crosses [b] next) :
    ∃ lexeme rest token after more, b :: bytes = b :: lexeme ++ rest ∧
      nesting.Reads (b :: lexeme) token after ∧
      Succession after (token.kind.isScalar && after.isEmpty) rest more ∧
      tokens = token :: more ∧
      (token.kind = .number → NumberEnds (b :: lexeme) (Feed.ofBytes rest)) := by
  generalize hinput : b :: bytes = input at h
  cases h with
  | done hblanks =>
      rw [← hinput, blanks_cons] at hblanks
      exact absurd (.blank hblanks.1 .nil) (hgap [])
  | @step _ mid after _ gap lexeme rest token more hcrosses hreads hends _ hrest =>
      cases gap with
      | nil =>
          obtain rfl := Nesting.crosses_nil_iff.mp hcrosses
          obtain ⟨c, tail, rfl⟩ := List.exists_cons_of_ne_nil hreads.ne_nil
          obtain ⟨rfl, rfl⟩ : b = c ∧ bytes = tail ++ rest := by simpa using hinput
          exact ⟨tail, rest, token, after, more, rfl, hreads, hrest, rfl, hends⟩
      | cons c gap =>
          obtain ⟨rfl, -⟩ : b = c ∧ _ := by simpa using hinput
          obtain ⟨next, hfirst, -⟩ := Nesting.crosses_cons_iff.mp hcrosses
          exact absurd hfirst (hgap next)

/-- Behind a byte of a gap the row goes on, and no separator is due any more. -/
theorem of_crosses_cons {next : Nesting} (h : Succession nesting due (b :: bytes) tokens)
    (hcrosses : nesting.Crosses [b] next) : Succession next false bytes tokens := by
  generalize hinput : b :: bytes = input at h
  cases h with
  | done hblanks =>
      rw [← hinput, blanks_cons] at hblanks
      obtain ⟨-, rfl⟩ := Nesting.crosses_root_iff.mp hcrosses
      exact .done hblanks.2
  | step hgap hreads hends _ hrest =>
      obtain ⟨tail, rfl, rfl, hbehind⟩ := hgap.of_head hreads hinput hcrosses
      exact .step hbehind hreads hends (by simp) hrest

/-- Behind a gap the row goes on. -/
theorem of_crosses {gap rest : List UInt8} (h : Succession nesting due (gap ++ rest) tokens)
    (hgap : nesting.Crosses gap inner) : ∃ stillDue, Succession inner stillDue rest tokens := by
  induction gap generalizing nesting due with
  | nil =>
      obtain rfl := Nesting.crosses_nil_iff.mp hgap
      exact ⟨due, h⟩
  | cons b gap ih =>
      obtain ⟨next, hfirst, hbehind⟩ := Nesting.crosses_cons_iff.mp hgap
      exact ih (h.of_crosses_cons hfirst) hbehind

/-- **No row goes on with a byte that is refused.** -/
theorem not_of_refuses (hrefuses : nesting.Refuses b) :
    ¬ Succession nesting due (b :: bytes) tokens := by
  intro h
  obtain ⟨lexeme, rest, token, after, more, -, hreads, -⟩ := h.exists_lexeme hrefuses.1
  obtain ⟨start, filled, hbegins⟩ := hreads.begins
  exact hrefuses.2 start filled hbegins

end Succession

/-! ## Leading zeros -/

/-- No number goes on with a digit behind a leading zero. -/
theorem not_numberText_leadingZero {sign tail : List UInt8} {d : UInt8}
    (hsign : OptionalMinus sign) (hdigit : isDigit d = true) :
    ¬ NumberText (sign ++ zero :: d :: tail) := by
  intro h
  have hpoint : d ≠ point := isDigit_ne hdigit (by decide)
  have hzero : NumberPhase.zero.next? d = none := by
    simp [NumberPhase.next?, hpoint, isExponentMark_of_isDigit hdigit]
  obtain ⟨last, hlast, -⟩ := NumberPhase.numberText_iff.mp h
  rcases hsign with rfl | rfl
  · have hall : NumberPhase.start.afterAll? (zero :: d :: tail) =
        (NumberPhase.zero.next? d).bind (·.afterAll? tail) := rfl
    simp [hall, hzero] at hlast
  · have hall : NumberPhase.start.afterAll? (minus :: zero :: d :: tail) =
        (NumberPhase.zero.next? d).bind (·.afterAll? tail) := rfl
    simp [hall, hzero] at hlast

/-- A minus sign or a digit is not part of a gap. -/
theorem Nesting.not_crosses_of_number {nesting next : Nesting} {b : UInt8}
    (hb : b = minus ∨ isDigit b = true) : ¬ nesting.Crosses [b] next := by
  intro h
  cases h with
  | blank hblank _ =>
      have hnumber := isNumberByte_of_isBlank hblank
      rcases hb with rfl | hdigit
      · exact absurd hblank (by decide)
      · simp [isNumberByte, hdigit] at hnumber
  | @punctuation frame _ _ _ _ _ hpunctuation _ =>
      obtain ⟨container, expects⟩ := frame
      have hbyte : b = colon ∨ b = comma := by
        cases container <;> cases expects <;> simp_all [Frame.afterPunctuation?]
      rcases hbyte with rfl | rfl
      · exact absurd hb (by decide)
      · exact absurd hb (by decide)

/-- A lexeme that begins with a minus sign or a digit is a number. -/
theorem Nesting.Reads.number {inner after : Nesting} {b : UInt8} {lexeme : List UInt8}
    {token : Token} (hb : b = minus ∨ isDigit b = true)
    (h : inner.Reads (b :: lexeme) token after) :
    NumberText (b :: lexeme) ∧ token.kind.isScalar = true ∧ after = inner.expect .commaOrEnd := by
  have hfirst {c : UInt8} {tail : List UInt8} (heq : b :: lexeme = c :: tail) :
      c = minus ∨ isDigit c = true := by
    rw [← (List.cons.inj heq).1]
    exact hb
  generalize b :: lexeme = text at h hfirst
  cases h with
  | @exit frame outer _ =>
      obtain ⟨container, expects⟩ := frame
      cases container
      · exact absurd (hfirst (c := closeBrace) rfl) (by decide)
      · exact absurd (hfirst (c := closeBracket) rfl) (by decide)
  | key _ hname =>
      obtain ⟨body, rfl, -⟩ := hname
      exact absurd (hfirst rfl) (by decide)
  | @enter _ container _ => cases container <;> exact absurd (hfirst rfl) (by decide)
  | @scalar _ _ json _ _ hvalue hscalar htoken =>
      obtain ⟨hkind, -⟩ := Json.isScalar_of_tokens_eq hscalar htoken
      refine ⟨?_, hkind, rfl⟩
      cases hvalue with
      | null => exact absurd (hfirst rfl) (by decide)
      | bool value => cases value <;> exact absurd (hfirst rfl) (by decide)
      | number hnumber => exact hnumber
      | string hstring =>
          obtain ⟨body, rfl, -⟩ := hstring
          exact absurd (hfirst rfl) (by decide)
      | emptyArray _ => simp [Json.isScalar] at hscalar
      | array _ => simp [Json.isScalar] at hscalar
      | emptyObject _ => simp [Json.isScalar] at hscalar
      | object _ => simp [Json.isScalar] at hscalar

/-- A digit begins no gap and, behind a complete part, no token. -/
theorem Succession.not_of_digit {nesting : Nesting} {d : UInt8} {rest : List UInt8}
    {tokens : List Token} (hdigit : isDigit d = true) :
    ¬ Succession (nesting.expect .commaOrEnd) (true && (nesting.expect .commaOrEnd).isEmpty)
      (d :: rest) tokens := by
  intro h
  have hne {c : UInt8} (hc : isDigit c = false) : d ≠ c := isDigit_ne hdigit hc
  have hblank : isBlank d = false := by
    simp [isBlank, hne (show isDigit space = false from rfl), hne (show isDigit tab = false from rfl),
      hne (show isDigit lineFeed = false from rfl),
      hne (show isDigit carriageReturn = false from rfl)]
  cases nesting with
  | nil =>
      -- Behind a root value the digit would have to separate.
      rcases h.completion.2 rfl d rfl with hb | hb | hb
      · rw [hblank] at hb
        contradiction
      · exact hne rfl hb
      · exact hne rfl hb
  | cons frame outer =>
      obtain ⟨container, expects⟩ := frame
      have hcomma : d ≠ comma := hne rfl
      refine Succession.not_of_refuses (Nesting.refuses_cons hblank ?_ ?_ ?_ ?_) h
      · cases container <;> simp [Frame.afterPunctuation?, hcomma]
      · intro _
        cases container
        · exact hne rfl
        · exact hne rfl
      · intro hkey
        cases container <;> contradiction
      · intro hvalue
        contradiction

/-- A number that begins with zero ends there, so the digit behind it is refused. -/
theorem Succession.not_of_leadingZero {nesting : Nesting} {due : Bool} {sign rest : List UInt8}
    {d : UInt8} {tokens : List Token} (hsign : OptionalMinus sign) (hdigit : isDigit d = true) :
    ¬ Succession nesting due (sign ++ zero :: d :: rest) tokens := by
  intro h
  -- The number takes the zero and nothing behind it.
  have hbehind {tail behind : List UInt8} {token : Token} {after : Nesting} {more : List Token}
      (hreads : nesting.Reads (sign ++ zero :: tail) token after)
      (htail : d :: rest = tail ++ behind)
      (hmore : Succession after (token.kind.isScalar && after.isEmpty) behind more) : False := by
    have hnumber : NumberText (sign ++ zero :: tail) ∧ token.kind.isScalar = true ∧
        after = nesting.expect .commaOrEnd := by
      rcases hsign with rfl | rfl
      · exact hreads.number (.inr rfl)
      · exact hreads.number (.inl rfl)
    obtain ⟨htext, hkind, rfl⟩ := hnumber
    cases tail with
    | nil =>
        rw [List.nil_append] at htail
        rw [hkind, ← htail] at hmore
        exact not_of_digit hdigit hmore
    | cons c tail =>
        obtain rfl : d = c := (List.cons.inj htail).1
        exact not_numberText_leadingZero hsign hdigit htext
  rcases id hsign with rfl | rfl
  · obtain ⟨lexeme, behind, token, after, more, hbytes, hreads, hmore, -⟩ :=
      h.exists_lexeme (fun _ => Nesting.not_crosses_of_number (.inr rfl))
    exact hbehind hreads (List.cons.inj hbytes).2 hmore
  · obtain ⟨lexeme, behind, token, after, more, hbytes, hreads, hmore, -⟩ :=
      h.exists_lexeme (fun _ => Nesting.not_crosses_of_number (.inl rfl))
    cases lexeme with
    | nil =>
        -- A minus sign alone is no number.
        obtain ⟨last, hlast, hlacking⟩ := NumberPhase.numberText_iff.mp (hreads.number (.inl rfl)).1
        obtain rfl : NumberPhase.minus = last := Option.some.inj hlast
        contradiction
    | cons c lexeme =>
        obtain ⟨rfl, htail⟩ := List.cons.inj (List.cons.inj hbytes).2
        exact hbehind hreads htail hmore

/-! ## Flaws -/

/-- **No row of lexemes goes on with a flaw.** -/
theorem Nesting.Flaw.not_succession {nesting : Nesting} {due : Bool} {bytes : List UInt8}
    {tokens : List Token} (h : nesting.Flaw bytes) : ¬ Succession nesting due bytes tokens := by
  intro hrow
  cases h with
  | @trailingComma frame outer blanks rest hexpects hblanks =>
      obtain ⟨container, expects⟩ := frame
      obtain rfl : expects = .commaOrEnd := hexpects
      -- Behind the comma the container does not close.
      have hcomma : ∃ wanted, Crosses (⟨container, .commaOrEnd⟩ :: outer) [comma]
          (⟨container, wanted⟩ :: outer) ∧
          Refuses (⟨container, wanted⟩ :: outer) (Frame.closer ⟨container, .commaOrEnd⟩) := by
        cases container
        · exact ⟨.key, .punctuation rfl .nil,
            refuses_cons rfl rfl (by decide) (by decide) (by decide)⟩
        · exact ⟨.value, .punctuation rfl .nil,
            refuses_cons rfl rfl (by decide) (by decide) (by decide)⟩
      obtain ⟨wanted, hcrosses, hrefuses⟩ := hcomma
      obtain ⟨stillDue, hbehind⟩ :=
        (hrow.of_crosses_cons hcrosses).of_crosses (Crosses.of_blanks hblanks)
      exact Succession.not_of_refuses hrefuses hbehind
  | @missingComma frame outer b rest hexpects hblank hcomma hcloser =>
      obtain ⟨container, expects⟩ := frame
      obtain rfl : expects = .commaOrEnd := hexpects
      -- A complete part may be followed by a comma or by the end of the container.
      refine Succession.not_of_refuses (refuses_cons hblank ?_ (fun _ => hcloser) ?_ ?_) hrow
      · cases container <;> simp [Frame.afterPunctuation?, hcomma]
      · intro hkey
        cases container <;> contradiction
      · intro hvalue
        contradiction
  | missingColon hblank hcolon =>
      refine Succession.not_of_refuses (refuses_cons hblank ?_ ?_ ?_ ?_) hrow
      · simp [Frame.afterPunctuation?, hcolon]
      · intro hclose
        contradiction
      · intro hkey
        contradiction
      · intro hvalue
        contradiction
  | otherKey hexpects hblank hquote hcloser =>
      refine Succession.not_of_refuses (refuses_cons hblank ?_ ?_ ?_ ?_) hrow
      · rcases hexpects with rfl | rfl <;> rfl
      · exact fun _ => hcloser
      · exact fun _ => hquote
      · intro hvalue
        rcases hexpects with rfl | rfl <;> contradiction
  | leadingZero hsign hdigit => exact Succession.not_of_leadingZero hsign hdigit hrow
  | @otherCloser frame outer b rest hcloses hcloser =>
      refine Succession.not_of_refuses (refuses_cons ?_ ?_ (fun _ => hcloser) ?_ ?_) hrow
      · rcases hcloses with rfl | rfl <;> rfl
      · obtain ⟨container, expects⟩ := frame
        rcases hcloses with rfl | rfl <;> cases container <;> cases expects <;> rfl
      · intro _
        rcases hcloses with rfl | rfl <;> decide
      · intro _
        rcases hcloses with rfl | rfl <;> rfl
  | strayCloser hcloses =>
      refine Succession.not_of_refuses (refuses_root ?_ ?_) hrow
      · rcases hcloses with rfl | rfl <;> rfl
      · rcases hcloses with rfl | rfl <;> rfl

namespace Tokenizer

/-- Whether a flaw is what comes next, behind the gap at which the tokenizer stands. -/
def MeetsFlaw (tokenizer : Tokenizer) : Prop :=
  ∃ gap inner bytes, tokenizer.cursor.feed = Feed.ofBytes (gap ++ bytes) ∧
    tokenizer.nesting.Crosses gap inner ∧ inner.Flaw bytes

theorem MeetsFlaw.not_delivers {tokenizer : Tokenizer} (h : tokenizer.MeetsFlaw)
    (tokens : List Token) : ¬ tokenizer.Delivers tokens := by
  intro hdelivers
  obtain ⟨gap, inner, bytes, hfeed, hgap, hflaw⟩ := h
  obtain ⟨due, hrow⟩ := ((delivers_iff hfeed).mp hdelivers).of_crosses hgap
  exact hflaw.not_succession hrow

/-- **The tokenizer accepts exactly its grammar.**  It reaches the end of a document and
delivers some tokens if and only if the document is a row of values and these are their
tokens.  A document in which it meets a flaw, behind any number of pulls, is never
accepted. -/
theorem accepts_exactly (document : List UInt8) :
    (∀ tokens, (ofBytes document).Delivers tokens ↔
      ∃ values, DocumentText document values ∧ tokens = Json.documentTokens values) ∧
    ∀ pulls, ((ofBytes document).afterPulls pulls).MeetsFlaw →
      ∀ tokens, ¬ (ofBytes document).Delivers tokens := by
  constructor
  · intro tokens
    exact delivers_ofBytes_iff_documentText
  · intro pulls hflaw tokens hdelivers
    exact hflaw.not_delivers _ (hdelivers.drop pulls)

/-- In the text `[1,]` the flaw is met when the number has been delivered. -/
example : ((ofBytes [openBracket, 0x31, comma, closeBracket]).afterPulls 2).MeetsFlaw :=
  ⟨[], _, _, rfl, .nil, .trailingComma rfl blanks_nil⟩

end Tokenizer
end RequiredKeys
