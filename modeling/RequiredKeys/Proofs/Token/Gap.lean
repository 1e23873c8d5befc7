import RequiredKeys.Token.Consumption
import RequiredKeys.Proofs.Json.Grammar

/-!
# Crossing a gap

What a successful scan of a gap says about the bytes it has taken:

* `Nesting.Crosses` is the way from the end of one token to the beginning of the
  next: white space, and the punctuation that the innermost container asks for.
* `Nesting.Begins` is what may stand at the end of that way.
* `Gap.afterAll?_eq_some_iff` and `Gap.onByte_cases` say that the table of gaps
  follows these two, and `Gap.completes_token_iff` puts them together.

The table is sensitive to the order of its tests.  `Gap.onByte_of_begins` is where
that order is seen not to matter: no byte begins two kinds of token.
-/

namespace RequiredKeys

open Ascii

namespace Container

def opener : Container → UInt8
  | object => openBrace
  | array => openBracket

end Container

/-- The tokens that a value begins with, by the first byte of the value. -/
inductive ValueStart : UInt8 → TokenStart → Prop
  | enter (container : Container) : ValueStart container.opener (.enter container)
  | string : ValueStart quote .string
  | number {b : UInt8} (h : b = minus ∨ isDigit b = true) : ValueStart b .number
  | literal {b : UInt8} {literal : Literal} (h : Literal.ofFirst? b = some literal) :
      ValueStart b (.literal literal)

namespace Nesting

@[simp] theorem expect_cons (expectation : Expectation) (frame : Frame) (outer : Nesting) :
    expect expectation (frame :: outer) = ⟨frame.container, expectation⟩ :: outer := rfl

/-- Whether a value may begin, inside the innermost container or at the root. -/
def WantsValue : Nesting → Prop
  | [] => True
  | frame :: _ => frame.wantsValue = true

/-- `Crosses nesting gap inner`: between two tokens `gap` may stand in `nesting`, and
`inner` is what is open behind it. -/
inductive Crosses : Nesting → List UInt8 → Nesting → Prop
  | nil {nesting : Nesting} : Crosses nesting [] nesting
  | blank {nesting inner : Nesting} {b : UInt8} {gap : List UInt8} (hb : isBlank b = true)
      (h : Crosses nesting gap inner) : Crosses nesting (b :: gap) inner
  | punctuation {frame : Frame} {outer inner : Nesting} {b : UInt8} {gap : List UInt8}
      {expectation : Expectation} (hb : frame.afterPunctuation? b = some expectation)
      (h : Crosses (⟨frame.container, expectation⟩ :: outer) gap inner) :
      Crosses (frame :: outer) (b :: gap) inner

/-- `Begins nesting b start filled`: in `nesting` the byte `b` begins the token
`start`, which is then read inside `filled`. -/
inductive Begins : Nesting → UInt8 → TokenStart → Nesting → Prop
  | exit {frame : Frame} {outer : Nesting} (h : frame.mayClose = true) :
      Begins (frame :: outer) frame.closer .exit (frame :: outer)
  | key {frame : Frame} {outer : Nesting} (h : frame.wantsKey = true) :
      Begins (frame :: outer) quote .key (frame :: outer)
  | value {nesting : Nesting} {b : UInt8} {start : TokenStart} (h : nesting.WantsValue)
      (hb : ValueStart b start) : Begins nesting b start (nesting.expect .commaOrEnd)

theorem Crosses.of_blanks {nesting : Nesting} {gap : List UInt8} (h : Blanks gap) :
    Crosses nesting gap nesting := by
  induction gap with
  | nil => exact .nil
  | cons b gap ih =>
      rw [blanks_cons] at h
      exact .blank h.1 (ih h.2)

theorem Crosses.append {nesting mid inner : Nesting} {left right : List UInt8}
    (hleft : Crosses nesting left mid) (hright : Crosses mid right inner) :
    Crosses nesting (left ++ right) inner := by
  induction hleft with
  | nil => exact hright
  | blank hb _ ih => exact .blank hb (ih hright)
  | punctuation hb _ ih => exact .punctuation hb (ih hright)

theorem crosses_nil_iff {nesting inner : Nesting} : Crosses nesting [] inner ↔ nesting = inner := by
  constructor
  · rintro ⟨⟩
    rfl
  · rintro rfl
    exact .nil

/-- At the root only white space stands between tokens. -/
theorem crosses_root_iff {inner : Nesting} {gap : List UInt8} :
    Crosses [] gap inner ↔ Blanks gap ∧ inner = [] := by
  constructor
  · intro h
    induction gap with
    | nil => exact ⟨blanks_nil, (crosses_nil_iff.mp h).symm⟩
    | cons b gap ih =>
        cases h with
        | blank hb h =>
            obtain ⟨hgap, hinner⟩ := ih h
            exact ⟨blanks_cons.mpr ⟨hb, hgap⟩, hinner⟩
  · rintro ⟨hgap, rfl⟩
    exact .of_blanks hgap

/-- A gap changes neither how many containers are open nor which. -/
theorem Crosses.length {nesting inner : Nesting} {gap : List UInt8}
    (h : Crosses nesting gap inner) : inner.length = nesting.length := by
  induction h with
  | nil => rfl
  | blank _ _ ih => exact ih
  | punctuation _ _ ih => exact ih

end Nesting

/-! ## First bytes -/

theorem ValueStart.beginsValue {b : UInt8} {start : TokenStart} (h : ValueStart b start) :
    beginsValue b = true := by
  cases h with
  | enter container => cases container <;> rfl
  | string => rfl
  | number hb => rcases hb with rfl | hb <;> simp [RequiredKeys.beginsValue, *]
  | literal hb => simp [RequiredKeys.beginsValue, hb]

theorem Nesting.Begins.isBlank_eq_false {nesting filled : Nesting} {b : UInt8}
    {start : TokenStart} (h : nesting.Begins b start filled) : isBlank b = false := by
  cases h with
  | @exit frame outer hclose =>
      obtain ⟨container, expects⟩ := frame
      cases container <;> rfl
  | key hkey => rfl
  | value hwants hb => exact isBlank_of_beginsValue hb.beginsValue

/-! ## The table of gaps -/

namespace TokenStart

/-- Whether the gap takes the first byte of the token. -/
def takesFirst : TokenStart → Bool
  | number => false
  | literal _ => false
  | _ => true

/-- The verdict of a gap that ends with the beginning of a token. -/
def verdict (start : TokenStart) (gap : Gap) : Verdict Gap (Option TokenStart) :=
  if start.takesFirst then .finish gap (.ok (some start)) else .leave gap (.ok (some start))

theorem verdict_ne_take (start : TokenStart) (gap next : Gap) : start.verdict gap ≠ .take next := by
  unfold verdict
  split <;> simp

theorem verdict_eq_finish_iff {start : TokenStart} {gap last : Gap}
    {result : Except Refusal (Option TokenStart)} :
    start.verdict gap = .finish last result ↔
      start.takesFirst = true ∧ last = gap ∧ result = .ok (some start) := by
  unfold verdict
  split
  · next h => simp [h, eq_comm]
  · next h => simp [h]

theorem verdict_eq_leave_iff {start : TokenStart} {gap last : Gap}
    {result : Except Refusal (Option TokenStart)} :
    start.verdict gap = .leave last result ↔
      start.takesFirst = false ∧ last = gap ∧ result = .ok (some start) := by
  unfold verdict
  split
  · next h => simp [h]
  · next h => simp [h, eq_comm]

end TokenStart

namespace Gap

theorem beginValue_of_valueStart {gap : Gap} {b : UInt8} {start : TokenStart}
    (h : ValueStart b start) :
    gap.beginValue b = start.verdict ⟨gap.nesting.expect .commaOrEnd, false⟩ := by
  cases h with
  | enter container => cases container <;> rfl
  | string => rfl
  | number hb =>
      have htest : (b = minus || isDigit b) = true := by simpa using hb
      have hbrace : ¬ (openBrace = minus ∨ isDigit openBrace = true) := by decide
      have hbracket : ¬ (openBracket = minus ∨ isDigit openBracket = true) := by decide
      have hquote : ¬ (quote = minus ∨ isDigit quote = true) := by decide
      unfold beginValue
      split
      · exact absurd hb hbrace
      · exact absurd hb hbracket
      · exact absurd hb hquote
      · rw [if_pos htest]
        rfl
  | @literal b literal hb =>
      rw [Literal.ofFirst?_eq_some_iff] at hb
      cases literal with
      | bool value => cases value <;> (obtain rfl := Option.some.inj hb; rfl)
      | null =>
          obtain rfl := Option.some.inj hb
          rfl

/-- A byte that begins no value is refused. -/
theorem beginValue_cases (gap : Gap) (b : UInt8) :
    (∃ start, ValueStart b start) ∨
      ∃ last cause, gap.beginValue b = .leave last (.error (.malformed cause)) := by
  unfold beginValue
  split
  · exact .inl ⟨_, .enter .object⟩
  · exact .inl ⟨_, .enter .array⟩
  · exact .inl ⟨_, .string⟩
  · split
    · next hnumber => exact .inl ⟨_, .number (by simpa using hnumber)⟩
    · split
      · next literal hliteral => exact .inl ⟨_, .literal hliteral⟩
      · exact .inr ⟨_, _, rfl⟩

/-- **The order of the tests does not matter**: whatever may begin in a nesting is
what the table finds, since no byte begins two kinds of token there. -/
theorem onByte_of_begins {nesting filled : Nesting} {due : Bool} {b : UInt8} {start : TokenStart}
    (hdue : due = true → separates b = true) (h : nesting.Begins b start filled) :
    onByte ⟨nesting, due⟩ b = start.verdict ⟨filled, false⟩ := by
  have hseparator : (due && !separates b) = false := by
    cases due <;> simp_all
  unfold onByte
  simp only [hseparator, h.isBlank_eq_false, Bool.false_eq_true, if_false]
  cases h with
  | @exit frame outer hclose =>
      simp [onInnerByte, hclose, TokenStart.verdict, TokenStart.takesFirst]
  | @key frame outer hkey =>
      -- Where a key is wanted a quote closes nothing.
      obtain ⟨container, expects⟩ := frame
      cases container <;> cases expects <;> first | contradiction | rfl
  | @value _ _ _ hwants hb =>
      cases nesting with
      | nil => exact beginValue_of_valueStart hb
      | cons frame outer =>
          obtain ⟨container, expects⟩ := frame
          have hclose : b ≠ closeBracket := beginsValue_ne hb.beginsValue (by decide)
          have hvalue : beginValue ⟨⟨container, expects⟩ :: outer, false⟩ b = _ :=
            beginValue_of_valueStart hb
          -- Of the twelve frames four want a value; the others contradict that.
          cases container <;> cases expects <;>
            first
            | contradiction
            | simpa [onInnerByte, Frame.mayClose, Frame.wantsKey, Frame.afterPunctuation?,
                Frame.closer, Frame.wantsValue, hclose] using hvalue

/-- Away from white space a byte inside a container is punctuation, or it begins a
token, or it is refused. -/
theorem onInnerByte_cases (frame : Frame) (outer : Nesting) (b : UInt8) :
    (∃ expectation, frame.afterPunctuation? b = some expectation ∧
        onInnerByte frame outer b = .take ⟨⟨frame.container, expectation⟩ :: outer, false⟩) ∨
      (∃ start filled, Nesting.Begins (frame :: outer) b start filled) ∨
      ∃ last cause, onInnerByte frame outer b = .leave last (.error (.malformed cause)) := by
  unfold onInnerByte
  split
  · next h =>
      simp only [Bool.and_eq_true, beq_iff_eq] at h
      obtain ⟨hclose, rfl⟩ := h
      exact .inr (.inl ⟨_, _, .exit hclose⟩)
  · split
    · next h =>
        simp only [Bool.and_eq_true, beq_iff_eq] at h
        obtain ⟨hkey, rfl⟩ := h
        exact .inr (.inl ⟨_, _, .key hkey⟩)
    · split
      · next expectation hpunctuation => exact .inl ⟨expectation, hpunctuation, rfl⟩
      · split
        · next hwants =>
            rcases beginValue_cases ⟨frame :: outer, false⟩ b with ⟨start, hstart⟩ | hrefused
            · exact .inr (.inl ⟨_, _, .value hwants hstart⟩)
            · exact .inr (.inr hrefused)
        · exact .inr (.inr ⟨_, _, rfl⟩)

theorem separates_of_isBlank {b : UInt8} (h : isBlank b = true) : separates b = true := by
  simp [separates, h]

/-- What a byte does, read off the table once and for all. -/
theorem onByte_cases (gap : Gap) (b : UInt8) :
    (∃ next, gap.onByte b = .take ⟨next, false⟩ ∧ (gap.separatorDue = true → separates b = true) ∧
        Nesting.Crosses gap.nesting [b] next) ∨
      (∃ start filled, gap.onByte b = start.verdict ⟨filled, false⟩ ∧
        (gap.separatorDue = true → separates b = true) ∧ gap.nesting.Begins b start filled) ∨
      ∃ last cause, gap.onByte b = .leave last (.error (.malformed cause)) := by
  obtain ⟨nesting, due⟩ := gap
  cases hseparator : (due && !separates b) with
  | true => exact .inr (.inr ⟨_, _, if_pos hseparator⟩)
  | false =>
      have hdue : due = true → separates b = true := by
        rintro rfl
        simpa using hseparator
      cases hblank : isBlank b with
      | true => exact .inl ⟨nesting, by simp [onByte, hseparator, hblank], hdue, .blank hblank .nil⟩
      | false =>
          -- A token that may begin here is found; only the other cases are left to the table.
          have hbegins (start : TokenStart) (filled : Nesting)
              (h : nesting.Begins b start filled) := onByte_of_begins hdue h
          cases nesting with
          | nil =>
              rcases beginValue_cases ⟨[], due⟩ b with ⟨start, hstart⟩ | ⟨last, cause, hrefused⟩
              · have h : Nesting.Begins [] b start [] := .value trivial hstart
                exact .inr (.inl ⟨start, _, hbegins start _ h, hdue, h⟩)
              · exact .inr (.inr ⟨last, cause, by simpa [onByte, hseparator, hblank]⟩)
          | cons frame outer =>
              have hinner : onByte ⟨frame :: outer, due⟩ b = onInnerByte frame outer b := by
                simp [onByte, hseparator, hblank]
              rcases onInnerByte_cases frame outer b with ⟨expectation, hpunctuation, htake⟩ |
                ⟨start, filled, h⟩ | ⟨last, cause, hrefused⟩
              · exact .inl ⟨_, hinner.trans htake, hdue, .punctuation hpunctuation .nil⟩
              · exact .inr (.inl ⟨start, filled, hbegins start filled h, hdue, h⟩)
              · exact .inr (.inr ⟨last, cause, hinner.trans hrefused⟩)

/-- A byte of a gap is taken. -/
theorem onByte_of_crosses {nesting next : Nesting} {due : Bool} {b : UInt8}
    (hdue : due = true → separates b = true) (h : nesting.Crosses [b] next) :
    onByte ⟨nesting, due⟩ b = .take ⟨next, false⟩ := by
  have hseparator : (due && !separates b) = false := by
    cases due <;> simp_all
  cases h with
  | blank hb h =>
      obtain rfl := Nesting.crosses_nil_iff.mp h
      simp [onByte, hseparator, hb]
  | @punctuation frame outer _ _ _ expectation hb h =>
      obtain rfl := Nesting.crosses_nil_iff.mp h
      obtain ⟨container, expects⟩ := frame
      -- Punctuation is neither white space nor a bracket nor a quote, so no test comes first.
      have hbyte : b = colon ∨ b = comma := by
        cases container <;> cases expects <;> simp_all [Frame.afterPunctuation?]
      have hblank : isBlank b = false := by
        rcases hbyte with rfl | rfl <;> rfl
      have hne : b ≠ quote ∧ b ≠ closeBrace ∧ b ≠ closeBracket := by
        rcases hbyte with rfl | rfl <;> decide
      have hcloser : b ≠ Frame.closer ⟨container, expects⟩ := by
        cases container
        · exact hne.2.1
        · exact hne.2.2
      simp [onByte, hseparator, hblank, onInnerByte, hb, hne.1, hcloser]

/-- The gap scanner goes on through exactly the bytes of gaps. -/
theorem onByte_eq_take_iff {gap next : Gap} {b : UInt8} :
    gap.onByte b = .take next ↔
      (gap.separatorDue = true → separates b = true) ∧
        Nesting.Crosses gap.nesting [b] next.nesting ∧ next.separatorDue = false := by
  constructor
  · intro htake
    rcases gap.onByte_cases b with ⟨inner, h, hdue, hcrosses⟩ | ⟨start, filled, h, -, -⟩ |
      ⟨last, cause, h⟩
    · rw [h, Verdict.take.injEq] at htake
      subst htake
      exact ⟨hdue, hcrosses, rfl⟩
    · exact absurd (h.symm.trans htake) (start.verdict_ne_take _ _)
    · simp [h] at htake
  · rintro ⟨hdue, hcrosses, hnext⟩
    obtain ⟨inner, due⟩ := next
    obtain rfl : due = false := hnext
    exact onByte_of_crosses hdue hcrosses

/-- The gap is over with a byte that belongs to a token. -/
theorem onByte_eq_finish_iff {gap last : Gap} {b : UInt8} {found : Option TokenStart} :
    gap.onByte b = .finish last (.ok found) ↔
      ∃ start, found = some start ∧ start.takesFirst = true ∧
        (gap.separatorDue = true → separates b = true) ∧
        gap.nesting.Begins b start last.nesting ∧ last.separatorDue = false := by
  constructor
  · intro hfinish
    rcases gap.onByte_cases b with ⟨inner, h, -, -⟩ | ⟨start, filled, h, hdue, hbegins⟩ |
      ⟨final, cause, h⟩
    · simp [h] at hfinish
    · obtain ⟨htakes, rfl, hfound⟩ := TokenStart.verdict_eq_finish_iff.mp (h.symm.trans hfinish)
      exact ⟨start, Except.ok.inj hfound, htakes, hdue, hbegins, rfl⟩
    · simp [h] at hfinish
  · rintro ⟨start, rfl, htakes, hdue, hbegins, hlast⟩
    obtain ⟨filled, due⟩ := last
    obtain rfl : due = false := hlast
    rw [onByte_of_begins hdue hbegins]
    exact TokenStart.verdict_eq_finish_iff.mpr ⟨htakes, rfl, rfl⟩

/-- The gap is over in front of a token that is read from its first byte on. -/
theorem onByte_eq_leave_iff {gap last : Gap} {b : UInt8} {found : Option TokenStart} :
    gap.onByte b = .leave last (.ok found) ↔
      ∃ start, found = some start ∧ start.takesFirst = false ∧
        (gap.separatorDue = true → separates b = true) ∧
        gap.nesting.Begins b start last.nesting ∧ last.separatorDue = false := by
  constructor
  · intro hleave
    rcases gap.onByte_cases b with ⟨inner, h, -, -⟩ | ⟨start, filled, h, hdue, hbegins⟩ |
      ⟨final, cause, h⟩
    · simp [h] at hleave
    · obtain ⟨htakes, rfl, hfound⟩ := TokenStart.verdict_eq_leave_iff.mp (h.symm.trans hleave)
      exact ⟨start, Except.ok.inj hfound, htakes, hdue, hbegins, rfl⟩
    · simp [h] at hleave
  · rintro ⟨start, rfl, htakes, hdue, hbegins, hlast⟩
    obtain ⟨filled, due⟩ := last
    obtain rfl : due = false := hlast
    rw [onByte_of_begins hdue hbegins]
    exact TokenStart.verdict_eq_leave_iff.mpr ⟨htakes, rfl, rfl⟩

/-! ## Whole gaps -/

/-- What a scan has taken in a gap, and that the demand for a separator is met. -/
theorem afterAll?_eq_some_iff {nesting : Nesting} {due : Bool} {gap : List UInt8} {last : Gap} :
    scanner.afterAll? ⟨nesting, due⟩ gap = some last ↔
      nesting.Crosses gap last.nesting ∧
        (due = true → ∀ b ∈ gap.head?, separates b = true) ∧
        last.separatorDue = (due && gap.isEmpty) := by
  induction gap generalizing nesting due with
  | nil =>
      obtain ⟨inner, final⟩ := last
      simp only [Scanner.afterAll?_nil, Option.some.injEq, mk.injEq, Nesting.crosses_nil_iff,
        List.isEmpty_nil, Bool.and_true]
      constructor
      · rintro ⟨hnesting, hdue⟩
        exact ⟨hnesting, by simp, hdue.symm⟩
      · rintro ⟨hnesting, -, hdue⟩
        exact ⟨hnesting, hdue.symm⟩
  | cons b gap ih =>
      rw [Scanner.afterAll?_cons_eq_some]
      constructor
      · rintro ⟨⟨inner, final⟩, hbyte, htail⟩
        obtain ⟨hdue, hcrosses, rfl⟩ := onByte_eq_take_iff.mp hbyte
        obtain ⟨hgap, -, hlast⟩ := ih.mp htail
        exact ⟨hcrosses.append hgap, by simpa using hdue, by simpa using hlast⟩
      · rintro ⟨hcrosses, hdue, hlast⟩
        have hfirst : ∃ mid, nesting.Crosses [b] mid ∧ mid.Crosses gap last.nesting := by
          cases hcrosses with
          | blank hb h => exact ⟨_, .blank hb .nil, h⟩
          | punctuation hb h => exact ⟨_, .punctuation hb .nil, h⟩
        obtain ⟨mid, hbyte, hgap⟩ := hfirst
        have hdueByte : due = true → separates b = true := by simpa using hdue
        exact ⟨⟨mid, false⟩, onByte_eq_take_iff.mpr ⟨hdueByte, hbyte, rfl⟩,
          ih.mpr ⟨hgap, by simp, by simpa using hlast⟩⟩

/-- **Where a gap ends with a token**: a way across the gap, and a byte at its end
that begins the token.  The byte is taken or left, as the token wants it. -/
theorem completes_token_iff {nesting : Nesting} {due : Bool} {taken : List UInt8} {rest : Feed}
    {last : Gap} {start : TokenStart} :
    scanner.Completes ⟨nesting, due⟩ taken rest last (.ok (some start)) ↔
      ∃ gap inner b, nesting.Crosses gap inner ∧
        (due = true → ∀ c ∈ (gap ++ [b]).head?, separates c = true) ∧
        inner.Begins b start last.nesting ∧ last.separatorDue = false ∧
        if start.takesFirst then taken = gap ++ [b]
        else taken = gap ∧ ∃ more, rest = .byte b :: more := by
  -- The demand is met by the gap, or where there is none by the byte behind it.
  have hhead {gap : List UInt8} {b : UInt8} :
      (due = true → ∀ c ∈ (gap ++ [b]).head?, separates c = true) ↔
        (due = true → ∀ c ∈ gap.head?, separates c = true) ∧
          ((due && gap.isEmpty) = true → separates b = true) := by
    cases due <;> cases gap <;> simp
  constructor
  · intro hcompletes
    rcases Scanner.completes_iff.mp hcompletes with ⟨-, -, hend⟩ |
      ⟨gap, b, ⟨inner, due'⟩, rfl, hgap, hbyte⟩ | ⟨⟨inner, due'⟩, b, more, hgap, rfl, hbyte⟩
    · exact absurd hend (onEnd_ne_ok_some last start)
    · obtain ⟨hcrosses, hdue, rfl⟩ := afterAll?_eq_some_iff.mp hgap
      obtain ⟨other, hstart, htakes, hdueByte, hbegins, hlast⟩ := onByte_eq_finish_iff.mp hbyte
      obtain rfl := Option.some.inj hstart
      refine ⟨gap, inner, b, hcrosses, hhead.mpr ⟨hdue, hdueByte⟩, hbegins, hlast, ?_⟩
      rw [if_pos htakes]
    · obtain ⟨hcrosses, hdue, rfl⟩ := afterAll?_eq_some_iff.mp hgap
      obtain ⟨other, hstart, htakes, hdueByte, hbegins, hlast⟩ := onByte_eq_leave_iff.mp hbyte
      obtain rfl := Option.some.inj hstart
      refine ⟨taken, inner, b, hcrosses, hhead.mpr ⟨hdue, hdueByte⟩, hbegins, hlast, ?_⟩
      rw [if_neg (by simp [htakes])]
      exact ⟨rfl, more, rfl⟩
  · rintro ⟨gap, inner, b, hcrosses, hdue, hbegins, hlast, htaken⟩
    obtain ⟨hdueGap, hdueByte⟩ := hhead.mp hdue
    have hgap : scanner.afterAll? ⟨nesting, due⟩ gap = some ⟨inner, due && gap.isEmpty⟩ :=
      afterAll?_eq_some_iff.mpr ⟨hcrosses, hdueGap, rfl⟩
    cases htakes : start.takesFirst with
    | true =>
        rw [if_pos htakes] at htaken
        subst htaken
        exact .finish hgap
          (onByte_eq_finish_iff.mpr ⟨start, rfl, htakes, hdueByte, hbegins, hlast⟩)
    | false =>
        rw [if_neg (by simp [htakes])] at htaken
        obtain ⟨rfl, more, rfl⟩ := htaken
        exact .leave hgap
          (onByte_eq_leave_iff.mpr ⟨start, rfl, htakes, hdueByte, hbegins, hlast⟩)

/-- **Where a gap ends with the input**: no container is open, and white space is
all that came. -/
theorem completes_end_iff {nesting : Nesting} {due : Bool} {taken : List UInt8} {rest : Feed}
    {last : Gap} :
    scanner.Completes ⟨nesting, due⟩ taken rest last (.ok none) ↔
      nesting = [] ∧ Blanks taken ∧ rest = [] ∧ last = ⟨[], due && taken.isEmpty⟩ := by
  have hend (gap : Gap) : scanner.onEnd gap = .ok none ↔ gap.nesting = [] := by
    obtain ⟨nesting, due⟩ := gap
    cases nesting <;> simp [scanner, onEnd]
  constructor
  · intro hcompletes
    rcases Scanner.completes_iff.mp hcompletes with ⟨htaken, rfl, hnone⟩ |
      ⟨gap, b, mid, -, -, hbyte⟩ | ⟨mid, b, more, -, -, hbyte⟩
    · obtain ⟨inner, final⟩ := last
      obtain rfl : inner = [] := (hend _).mp hnone
      obtain ⟨hcrosses, -, rfl⟩ := afterAll?_eq_some_iff.mp htaken
      -- A gap opens and closes nothing, so nothing was open in front of it either.
      have hnesting : nesting = [] := List.length_eq_zero_iff.mp hcrosses.length.symm
      subst hnesting
      exact ⟨rfl, (Nesting.crosses_root_iff.mp hcrosses).1, rfl, rfl⟩
    · obtain ⟨start, hstart, -⟩ := onByte_eq_finish_iff.mp hbyte
      simp at hstart
    · obtain ⟨start, hstart, -⟩ := onByte_eq_leave_iff.mp hbyte
      simp at hstart
  · rintro ⟨rfl, hblanks, rfl, rfl⟩
    have hdue : due = true → ∀ b ∈ taken.head?, separates b = true := by
      rintro - b hb
      exact separates_of_isBlank (hblanks b (List.mem_of_mem_head? hb))
    have htaken : scanner.afterAll? ⟨[], due⟩ taken = some ⟨[], due && taken.isEmpty⟩ :=
      afterAll?_eq_some_iff.mpr ⟨.of_blanks hblanks, hdue, rfl⟩
    exact .atEnd htaken

end Gap

end RequiredKeys
