import RequiredKeys.Proofs.Lexeme.Causes
import RequiredKeys.Proofs.Lexeme.Unquoting
import RequiredKeys.Proofs.Token.Blame
import RequiredKeys.Proofs.Token.Viability

/-!
# Frames behind every pull

A tokenizer is pulled any number of times, over a feed with failures in it, and goes on behind every
error.  Its open containers stay regular all the time, since a container is told of a value when the
value begins, and is not asked again however the value ends.

* `Tokenizer.exists_crosses` is the first scan of a pull: it crosses a gap and stops where a token
  begins, where a byte is refused, or where no byte comes.
* `TextPart` is what a second scan can take, of a string, a number or a word.
* `Tokenizer.Consumes` is what the bytes are that one pull takes: a gap, and then a bracket that
  opens or closes a container, or a part of some text.  Behind a bracket nothing is looked at, so
  no failure can come between it and its frame.
* `Tokenizer.Regular.pull` is one pull and `Tokenizer.Regular.afterPulls` any number of them.

`Tokenizer.keepsFrames` puts them together; two of the causes never come up
(`Tokenizer.arises_of_malformed`).
-/

namespace RequiredKeys

open Ascii

/-! ## Parts of texts -/

/-- What may be taken of a string, a number or a word, from its first byte on.  No byte of it is a
bracket to the tokenizer: it stands between quotes, or it goes on a number or a word, or it is the
wrong byte of a word. -/
inductive TextPart : List UInt8 → Prop
  | nothing : TextPart []
  /-- Nothing is taken behind the quote that closes a string. -/
  | string {body : List UInt8}
      (h : ∀ inside rest, Enclosed inside → body = inside ++ quote :: rest → rest = []) :
      TextPart (quote :: body)
  | number {bytes : List UInt8} (h : ∀ b ∈ bytes, isNumberByte b = true) : TextPart bytes
  /-- A byte that is not the one of the word is taken, and then nothing more. -/
  | word (literal : Literal) {bytes : List UInt8}
      (hfirst : ∀ b ∈ bytes.head?, literal.bytes.head? = some b)
      (h : bytes.dropLast <+: literal.bytes) : TextPart bytes

/-- A scan takes all its bytes, or the last one of them finishes it. -/
theorem Scanner.exists_taken_run {σ α : Type} (scanner : Scanner σ α) (state : σ)
    (cursor : Cursor) :
    ∃ taken, cursor.Advances (scanner.run state cursor).cursor taken ∧
      ((∃ mid, scanner.afterAll? state taken = some mid) ∨
        ∃ before b mid last result, taken = before ++ [b] ∧
          scanner.afterAll? state before = some mid ∧
          scanner.onByte mid b = .finish last result) := by
  obtain ⟨feed, p⟩ := cursor
  obtain ⟨taken, rest, last, result, rfl, hcompletes⟩ |
    ⟨taken, reason, rest, last, rfl, htaken⟩ := scanner.completes_or_interrupted state feed
  · refine ⟨taken, ?_, ?_⟩
    · rw [run, runFrom_of_completes hcompletes]
      exact ⟨by simp, rfl⟩
    · rcases completes_iff.mp hcompletes with ⟨htaken, -, -⟩ |
        ⟨before, b, mid, hlast, hbefore, hb⟩ | ⟨mid, b, more, htaken, -, -⟩
      · exact .inl ⟨last, htaken⟩
      · exact .inr ⟨before, b, mid, last, result, hlast, hbefore, hb⟩
      · exact .inl ⟨mid, htaken⟩
  · refine ⟨taken, ?_, .inl ⟨last, htaken⟩⟩
    rw [run, runFrom_of_interrupted htaken]
    exact ⟨by simp, rfl⟩

/-- Only the last byte that is taken of a string can close it. -/
theorem PartialQuoted.exists_textPart (cursor : Cursor) :
    ∃ taken, cursor.Advances (scanner.run {} cursor).cursor taken ∧ TextPart (quote :: taken) := by
  have hstart : ({} : PartialQuoted).mode ≠ .escape := by simp
  obtain ⟨taken, hadvances, htaken⟩ := scanner.exists_taken_run {} cursor
  refine ⟨taken, hadvances, .string ?_⟩
  rintro inside rest hinside rfl
  obtain ⟨mid, hmid⟩ | ⟨before, b, mid, last, result, hlast, hbefore, -⟩ := htaken
  · exact absurd hmid (afterAll?_closed hinside hstart rest mid)
  · obtain rfl | ⟨more, c, rfl⟩ := List.eq_nil_or_concat rest
    · rfl
    · rw [List.concat_eq_append, ← List.cons_append, ← List.append_assoc] at hlast
      obtain ⟨rfl, -⟩ := List.append_singleton_inj.mp hlast
      exact absurd hbefore (afterAll?_closed hinside hstart more mid)

theorem PartialNumber.exists_textPart (cursor : Cursor) :
    ∃ taken, cursor.Advances (scanner.run {} cursor).cursor taken ∧ TextPart taken := by
  have hall {number last : PartialNumber} {taken : List UInt8}
      (h : scanner.afterAll? number taken = some last) : ∀ b ∈ taken, isNumberByte b = true := by
    induction taken generalizing number with
    | nil => simp
    | cons b taken ih =>
        obtain ⟨next, hbyte, hrest⟩ := Scanner.afterAll?_cons_eq_some.mp h
        refine List.forall_mem_cons.mpr ⟨?_, ih hrest⟩
        cases hb : isNumberByte b with
        | true => rfl
        | false => simp [scanner, onByte, NumberPhase.next?_eq_none hb] at hbyte
  obtain ⟨taken, hadvances, ⟨mid, hmid⟩ | ⟨before, b, mid, last, result, -, -, hb⟩⟩ :=
    scanner.exists_taken_run {} cursor
  · exact ⟨taken, hadvances, .number (hall hmid)⟩
  · -- A number is never over with a byte, only in front of one.
    simp only [scanner, onByte] at hb
    split at hb <;> contradiction

theorem Literal.exists_textPart (literal : Literal) {cursor : Cursor} {b : UInt8} {rest : Feed}
    (hb : literal.bytes.head? = some b) (hfeed : cursor.feed = .byte b :: rest) :
    ∃ taken, cursor.Advances (literal.scanner.run literal.bytes cursor).cursor taken ∧
      TextPart taken := by
  have hword {taken last : List UInt8}
      (h : literal.scanner.afterAll? literal.bytes taken = some last) :
      taken <+: literal.bytes := by
    obtain ⟨hbytes, -⟩ := (afterAll?_eq_some_iff literal.bytes_ne_nil).mp h
    exact ⟨last, hbytes.symm⟩
  obtain ⟨taken, hadvances, htaken⟩ := literal.scanner.exists_taken_run literal.bytes cursor
  refine ⟨taken, hadvances, .word literal ?_ ?_⟩
  · intro c hc
    obtain ⟨tail, rfl⟩ := List.head?_eq_some_iff.mp hc
    have hbytes := hadvances.bytes
    rw [hfeed, Feed.bytes_byte, List.cons_append, List.cons.injEq] at hbytes
    rw [hb, hbytes.1]
  · obtain ⟨mid, hmid⟩ | ⟨before, c, mid, last, result, rfl, hbefore, -⟩ := htaken
    · exact (List.dropLast_prefix taken).trans (hword hmid)
    · rw [List.dropLast_concat]
      exact hword hbefore

/-! ## What one pull takes -/

namespace Tokenizer

/-- The tokenizer where other things are delivered: the bytes `taken`, and then `rest`. -/
def delivering (tokenizer : Tokenizer) (taken : List UInt8) (rest : Feed) : Tokenizer :=
  ⟨⟨Feed.ofBytes taken ++ rest, tokenizer.position⟩, tokenizer.nesting, tokenizer.separatorDue,
    tokenizer.current⟩

/-- `Consumes tokenizer taken`: what the bytes are that the next pull takes.  White space and
punctuation have moved the innermost container on when they are taken, and a bracket has its frame,
whatever is delivered behind them. -/
inductive Consumes (tokenizer : Tokenizer) : List UInt8 → Prop
  | opening {gap : List UInt8} {inner : Nesting} {container : Container}
      (hgap : tokenizer.nesting.Crosses gap inner)
      (hfeed : ∃ rest, tokenizer = tokenizer.delivering (gap ++ [container.opener]) rest)
      (hpull : ∀ rest, (tokenizer.delivering (gap ++ [container.opener]) rest).pull =
        (.ok (some ⟨.startOf container, none, inner.length⟩),
          ⟨⟨rest, tokenizer.position.afterAll (gap ++ [container.opener])⟩,
            Frame.opened container :: inner.expect .commaOrEnd, false,
            some ⟨.startOf container, none, inner.length⟩⟩)) :
      Consumes tokenizer (gap ++ [container.opener])
  | closing {gap : List UInt8} {frame : Frame} {outer : Nesting}
      (hgap : tokenizer.nesting.Crosses gap (frame :: outer))
      (hfeed : ∃ rest, tokenizer = tokenizer.delivering (gap ++ [frame.closer]) rest)
      (hpull : ∀ rest, (tokenizer.delivering (gap ++ [frame.closer]) rest).pull =
        (.ok (some ⟨.endOf frame.container, none, outer.length⟩),
          ⟨⟨rest, tokenizer.position.afterAll (gap ++ [frame.closer])⟩, outer, false,
            some ⟨.endOf frame.container, none, outer.length⟩⟩)) :
      Consumes tokenizer (gap ++ [frame.closer])
  | text {gap more : List UInt8} {inner : Nesting} (hgap : tokenizer.nesting.Crosses gap inner)
      (hpull : ∀ rest, (tokenizer.delivering gap rest).pull =
        pull ⟨⟨rest, tokenizer.position.afterAll gap⟩, inner,
          tokenizer.separatorDue && gap.isEmpty, none⟩)
      (hmore : TextPart more)
      (hframes : tokenizer.pull.2.nesting.containers = tokenizer.nesting.containers) :
      Consumes tokenizer (gap ++ more)

end Tokenizer

namespace Gap

/-- A byte that is refused changes nothing, or the innermost container has been told of a value. -/
theorem nesting_of_refused {gap last : Gap} {b : UInt8} {refusal : Refusal}
    (h : gap.onByte b = .leave last (.error refusal)) :
    last.nesting = gap.nesting ∨ last.nesting = gap.nesting.expect .commaOrEnd := by
  have hbegin {nesting : Nesting}
      (hvalue : beginValue ⟨nesting, false⟩ b = .leave last (.error refusal)) :
      last.nesting = nesting.expect .commaOrEnd := by
    have hstate := state_beginValue ⟨nesting, false⟩ b
    rwa [hvalue] at hstate
  obtain ⟨nesting, due⟩ := gap
  unfold onByte at h
  split at h
  · obtain rfl := (Verdict.leave.inj h).1
    exact .inl rfl
  · split at h
    · contradiction
    · cases nesting with
      | nil =>
          have hstate := state_beginValue ⟨[], due⟩ b
          rw [show beginValue ⟨[], due⟩ b = _ from h] at hstate
          exact .inr hstate
      | cons frame outer =>
          simp only [onInnerByte] at h
          split at h
          · contradiction
          · split at h
            · contradiction
            · split at h
              · contradiction
              · split at h
                · exact .inr (hbegin h)
                · obtain rfl := (Verdict.leave.inj h).1
                  exact .inl rfl

/-- Where a gap is refused it has been crossed up to there. -/
theorem exists_crosses_of_refused {nesting : Nesting} {due : Bool} {taken : List UInt8}
    {rest : Feed} {last : Gap} {refusal : Refusal}
    (h : scanner.Completes ⟨nesting, due⟩ taken rest last (.error refusal)) :
    ∃ inner, nesting.Crosses taken inner ∧
      (due = true → ∀ b ∈ taken.head?, separates b = true) ∧
      (last.nesting = inner ∨ last.nesting = inner.expect .commaOrEnd) := by
  rcases Scanner.completes_iff.mp h with ⟨htaken, -, -⟩ | ⟨before, b, mid, -, -, hbyte⟩ |
    ⟨mid, b, more, htaken, -, hbyte⟩
  · obtain ⟨hgap, hdue, -⟩ := afterAll?_eq_some_iff.mp htaken
    exact ⟨last.nesting, hgap, hdue, .inl rfl⟩
  · -- No byte is taken to be refused.
    have hblames := mid.blamesNext b
    rw [show mid.onByte b = _ from hbyte] at hblames
    exact hblames.elim
  · obtain ⟨hgap, hdue, -⟩ := afterAll?_eq_some_iff.mp htaken
    exact ⟨mid.nesting, hgap, hdue, nesting_of_refused hbyte⟩

/-- Behind the beginning of a token the nesting is that of the gap, or is told of a value. -/
theorem nesting_of_begins {inner filled : Nesting} {b : UInt8} {start : TokenStart}
    (h : inner.Begins b start filled) : filled = inner ∨ filled = inner.expect .commaOrEnd := by
  cases h with
  | exit _ => exact .inl rfl
  | key _ => exact .inl rfl
  | value _ _ => exact .inr rfl

end Gap

theorem Nesting.containers_of_told {nesting inner : Nesting}
    (h : nesting = inner ∨ nesting = inner.expect .commaOrEnd) :
    nesting.containers = inner.containers := by
  obtain rfl | rfl := h
  · rfl
  · exact containers_expect _ _

namespace TokenStart

/-- Whether the token is a string, a number or a word, or the key of a member. -/
def isText : TokenStart → Bool
  | enter _ => false
  | exit => false
  | _ => true

theorem containers_read {start : TokenStart} (h : start.isText = true) (nesting : Nesting)
    (cursor : Cursor) : (start.read nesting cursor).nesting.containers = nesting.containers := by
  cases start with
  | enter container => simp [isText] at h
  | exit => simp [isText] at h
  | key =>
      cases hresult : (PartialQuoted.scanner.run {} cursor).result with
      | ok name => simp [read, hresult]
      | error error => simp [read, hresult]
  | string => rfl
  | number => rfl
  | literal word => cases word <;> rfl

end TokenStart

namespace Tokenizer

variable {tokenizer next : Tokenizer}

/-- **The first scan of a pull** crosses a gap.  It ends there, or a token begins behind the gap. -/
theorem exists_crosses (tokenizer : Tokenizer) :
    ∃ gap inner, tokenizer.nesting.Crosses gap inner ∧
      (tokenizer.separatorDue = true → ∀ b ∈ gap.head?, Gap.separates b = true) ∧
      ((tokenizer.cursor.Advances tokenizer.crossGap.cursor gap ∧
          (∀ start, tokenizer.crossGap.result ≠ .ok (some start)) ∧
          (tokenizer.crossGap.state.nesting = inner ∨
            tokenizer.crossGap.state.nesting = inner.expect .commaOrEnd)) ∨
        ∃ start b taken, tokenizer.crossGap.result = .ok (some start) ∧
          inner.Begins b start tokenizer.crossGap.state.nesting ∧
          (tokenizer.separatorDue = true → ∀ c ∈ (gap ++ [b]).head?, Gap.separates c = true) ∧
          tokenizer.cursor.feed = Feed.ofBytes taken ++ tokenizer.crossGap.cursor.feed ∧
          tokenizer.crossGap.cursor.position = tokenizer.position.afterAll taken ∧
          if start.takesFirst then taken = gap ++ [b]
          else taken = gap ∧ ∃ more, tokenizer.crossGap.cursor.feed = .byte b :: more) := by
  obtain ⟨⟨feed, p⟩, nesting, due, current⟩ := tokenizer
  obtain ⟨taken, rest, last, result, rfl, hcompletes⟩ |
    ⟨taken, reason, rest, last, rfl, htaken⟩ :=
    Gap.scanner.completes_or_interrupted ⟨nesting, due⟩ feed
  · have hcross : crossGap ⟨⟨Feed.ofBytes taken ++ rest, p⟩, nesting, due, current⟩ =
        ⟨Scanner.located (p.afterAll taken) result, last, ⟨rest, p.afterAll taken⟩⟩ :=
      Scanner.runFrom_of_completes hcompletes p
    rw [hcross]
    cases result with
    | error refusal =>
        obtain ⟨inner, hgap, hdue, hlast⟩ := Gap.exists_crosses_of_refused hcompletes
        exact ⟨taken, inner, hgap, hdue, .inl ⟨⟨by simp, rfl⟩, by simp, hlast⟩⟩
    | ok found =>
        cases found with
        | none =>
            obtain ⟨rfl, hblanks, -, rfl⟩ := Gap.completes_end_iff.mp hcompletes
            refine ⟨taken, [], .of_blanks hblanks, ?_, .inl ⟨⟨by simp, rfl⟩, by simp, .inl rfl⟩⟩
            rintro - b hb
            exact Gap.separates_of_isBlank (hblanks b (List.mem_of_mem_head? hb))
        | some start =>
            obtain ⟨gap, inner, b, hgap, hdue, hbegins, -, htaken⟩ :=
              Gap.completes_token_iff.mp hcompletes
            refine ⟨gap, inner, hgap, ?_,
              .inr ⟨start, b, taken, rfl, hbegins, hdue, rfl, rfl, htaken⟩⟩
            exact fun h c hc => hdue h c (List.mem_head?_append_of_mem_head? hc)
  · have hcross : crossGap ⟨⟨Feed.ofBytes taken ++ .failure reason :: rest, p⟩, nesting, due,
        current⟩ = ⟨.error (.unreadable reason), last, ⟨rest, p.afterAll taken⟩⟩ :=
      Scanner.runFrom_of_interrupted htaken reason rest p
    rw [hcross]
    obtain ⟨hgap, hdue, -⟩ := Gap.afterAll?_eq_some_iff.mp htaken
    exact ⟨taken, last.nesting, hgap, hdue, .inl ⟨⟨by simp, by simp⟩, by simp, .inl rfl⟩⟩

/-- **The second scan of a pull**, of a token that is no bracket, takes a part of its text. -/
theorem exists_textPart_read {start : TokenStart} {inner filled : Nesting} {b : UInt8}
    {gap taken : List UInt8} {cursor : Cursor} (htext : start.isText = true)
    (hbegins : inner.Begins b start filled)
    (htaken : if start.takesFirst then taken = gap ++ [b]
      else taken = gap ∧ ∃ more, cursor.feed = .byte b :: more) :
    ∃ lexeme more, cursor.Advances (start.read filled cursor).cursor lexeme ∧
      taken ++ lexeme = gap ++ more ∧ TextPart more := by
  have hquoted (hfirst : taken = gap ++ [quote]) :
      ∃ lexeme more, cursor.Advances (PartialQuoted.scanner.run {} cursor).cursor lexeme ∧
        taken ++ lexeme = gap ++ more ∧ TextPart more := by
    obtain ⟨lexeme, hadvances, hpart⟩ := PartialQuoted.exists_textPart cursor
    exact ⟨lexeme, _, hadvances, by simp [hfirst], hpart⟩
  cases hbegins with
  | exit _ => simp [TokenStart.isText] at htext
  | key _ =>
      obtain ⟨lexeme, more, hadvances, hmore⟩ := hquoted htaken
      refine ⟨lexeme, more, ?_, hmore⟩
      cases hresult : (PartialQuoted.scanner.run {} cursor).result with
      | ok name => simpa [TokenStart.read, hresult] using hadvances
      | error error => simpa [TokenStart.read, hresult] using hadvances
  | value _ hb =>
      cases hb with
      | enter container => simp [TokenStart.isText] at htext
      | string => exact hquoted htaken
      | number _ =>
          obtain ⟨rfl, -⟩ := htaken
          obtain ⟨lexeme, hadvances, hpart⟩ := PartialNumber.exists_textPart cursor
          exact ⟨lexeme, lexeme, hadvances, rfl, hpart⟩
      | @literal _ word hword =>
          obtain ⟨rfl, more, hfeed⟩ := htaken
          obtain ⟨lexeme, hadvances, hpart⟩ :=
            word.exists_textPart (Literal.ofFirst?_eq_some_iff.mp hword) hfeed
          refine ⟨lexeme, lexeme, ?_, rfl, hpart⟩
          cases word <;> exact hadvances

/-- A pull without a token leaves its cursor and its nesting where the gap has. -/
theorem pull_of_no_start (h : ∀ start, tokenizer.crossGap.result ≠ .ok (some start)) :
    tokenizer.pull.2 =
      ⟨tokenizer.crossGap.cursor, tokenizer.crossGap.state.nesting, false, none⟩ := by
  cases hgap : tokenizer.crossGap.result with
  | error error => simp [pull, hgap]
  | ok found =>
      cases found with
      | none => simp [pull, hgap]
      | some start => exact absurd hgap (h start)

/-- With a token it leaves them where the token has. -/
theorem pull_of_start {start : TokenStart} (h : tokenizer.crossGap.result = .ok (some start)) :
    tokenizer.pull.2.cursor =
        (start.read tokenizer.crossGap.state.nesting tokenizer.crossGap.cursor).cursor ∧
      tokenizer.pull.2.nesting =
        (start.read tokenizer.crossGap.state.nesting tokenizer.crossGap.cursor).nesting ∧
      ∀ error, tokenizer.pull.1 = .error error → tokenizer.pull.2.separatorDue = false ∧
        (start.read tokenizer.crossGap.state.nesting tokenizer.crossGap.cursor).result =
          .error error := by
  cases hread : (start.read tokenizer.crossGap.state.nesting tokenizer.crossGap.cursor).result with
  | error error => simp [pull, h, hread]
  | ok token => simp [pull, h, hread]

/-- A bracket that begins a token is the whole of it, whatever is delivered behind it. -/
theorem consumes_of_bracket {start : TokenStart} {gap : List UInt8} {inner filled : Nesting}
    {b : UInt8} (htext : start.isText = false) (hgap : tokenizer.nesting.Crosses gap inner)
    (hbegins : inner.Begins b start filled)
    (hdue : tokenizer.separatorDue = true → ∀ c ∈ (gap ++ [b]).head?, Gap.separates c = true)
    (hfeed : ∃ rest, tokenizer = tokenizer.delivering (gap ++ [b]) rest) :
    tokenizer.Consumes (gap ++ [b]) := by
  cases hbegins with
  | exit hclose =>
      exact .closing hgap hfeed (fun rest => pull_of_lexeme hgap (.exit hclose) (by simp) hdue _ _)
  | key _ => simp [TokenStart.isText] at htext
  | value hwants hb =>
      cases hb with
      | enter container =>
          exact .opening hgap hfeed
            (fun rest => pull_of_lexeme hgap (.enter hwants) (by simp) hdue _ _)
      | string => simp [TokenStart.isText] at htext
      | number _ => simp [TokenStart.isText] at htext
      | literal _ => simp [TokenStart.isText] at htext

/-- **What one pull takes**, in every state and over every feed. -/
theorem exists_consumes (tokenizer : Tokenizer) :
    ∃ taken, tokenizer.cursor.Advances tokenizer.pull.2.cursor taken ∧
      tokenizer.Consumes taken := by
  obtain ⟨gap, inner, hgap, hdue, ⟨hadvances, hnone, hnesting⟩ |
    ⟨start, b, taken, hstart, hbegins, hdueByte, hfeed, hposition, htaken⟩⟩ :=
    tokenizer.exists_crosses
  · refine ⟨gap ++ [], ?_, .text hgap (fun rest => pull_of_gap hgap hdue rest _ _ _) .nothing ?_⟩
    · rw [List.append_nil, pull_of_no_start hnone]
      exact hadvances
    · rw [pull_of_no_start hnone, ← hgap.containers]
      exact Nesting.containers_of_told hnesting
  · obtain ⟨hcursor, hafter, -⟩ := pull_of_start hstart
    have hfirst : tokenizer.cursor.Advances tokenizer.crossGap.cursor taken :=
      ⟨by rw [hfeed]; simp, hposition⟩
    cases htext : start.isText with
    | true =>
        obtain ⟨lexeme, more, hlexeme, hbytes, hpart⟩ := exists_textPart_read htext hbegins htaken
        have hadvances := hfirst.trans hlexeme
        rw [hbytes, ← hcursor] at hadvances
        refine ⟨gap ++ more, hadvances,
          .text hgap (fun rest => pull_of_gap hgap hdue rest _ _ _) hpart ?_⟩
        rw [hafter, TokenStart.containers_read htext, ← hgap.containers]
        exact Nesting.containers_of_told (Gap.nesting_of_begins hbegins)
    | false =>
        have htakes : start.takesFirst = true ∧
            tokenizer.pull.2.cursor = tokenizer.crossGap.cursor := by
          rw [hcursor]
          cases start with
          | enter container => exact ⟨rfl, rfl⟩
          | exit => cases tokenizer.crossGap.state.nesting <;> exact ⟨rfl, rfl⟩
          | _ => simp [TokenStart.isText] at htext
        rw [if_pos htakes.1] at htaken
        subst htaken
        refine ⟨gap ++ [b], ?_, consumes_of_bracket htext hgap hbegins hdueByte
          ⟨tokenizer.crossGap.cursor.feed, ?_⟩⟩
        · rw [htakes.2]
          exact hfirst
        · rw [delivering, ← hfeed]
          rfl

/-! ## Any number of pulls -/

/-- **The way out with an error** leaves the innermost container as it is behind the gap, or told
of a value. -/
theorem nesting_of_error {error : StreamError} (h : tokenizer.pull.1 = .error error) :
    tokenizer.pull.2.separatorDue = false ∧ ∃ gap inner, tokenizer.nesting.Crosses gap inner ∧
      (tokenizer.pull.2.nesting = inner ∨ tokenizer.pull.2.nesting = inner.expect .commaOrEnd) := by
  obtain ⟨gap, inner, hgap, -, ⟨-, hnone, hnesting⟩ | ⟨start, b, taken, hstart, hbegins, -⟩⟩ :=
    tokenizer.exists_crosses
  · rw [pull_of_no_start hnone]
    exact ⟨rfl, gap, inner, hgap, hnesting⟩
  · obtain ⟨-, hafter, hfails⟩ := pull_of_start hstart
    obtain ⟨hdue, hresult⟩ := hfails error h
    refine ⟨hdue, gap, inner, hgap, ?_⟩
    rw [hafter, TokenStart.nesting_read_of_error hresult]
    exact Gap.nesting_of_begins hbegins

end Tokenizer

/-- In a regular nesting no container expects what its kind has not. -/
theorem Nesting.Regular.forall_isRegular {nesting : Nesting} (h : nesting.Regular) :
    ∀ frame ∈ nesting, frame.isRegular = true := by
  induction nesting with
  | nil => simp
  | cons frame outer ih => exact List.forall_mem_cons.mpr ⟨h.1, ih h.of_cons⟩

namespace Tokenizer

variable {tokenizer : Tokenizer}

/-- **One pull keeps the frames regular**, whatever it answers. -/
theorem Regular.pull (h : tokenizer.Regular) : tokenizer.pull.2.Regular := by
  rcases hpull : tokenizer.pull with ⟨error | found, next⟩
  · obtain ⟨hdue, gap, inner, hgap, hnesting⟩ := nesting_of_error (congrArg Prod.fst hpull)
    rw [hpull] at hdue hnesting
    have hinner := hgap.regular h.nesting
    constructor
    · obtain hnesting | hnesting := hnesting
      · rwa [hnesting]
      · rw [hnesting]
        exact hinner.filled
    · intro hseparator
      exact absurd (hdue.symm.trans hseparator) (by decide)
  · cases found with
    | some token => exact h.of_pull hpull
    | none =>
        obtain ⟨blanks, -, -, -, rfl⟩ := pull_eq_end_iff.mp hpull
        exact ⟨trivial, by simp⟩

theorem Regular.afterPulls (h : tokenizer.Regular) (pulls : Nat) :
    (tokenizer.afterPulls pulls).Regular := by
  induction pulls generalizing tokenizer with
  | zero => exact h
  | succ pulls ih => exact ih h.pull

/-! ## Causes that never come up -/

end Tokenizer

/-- A refused byte is unexpected. -/
theorem Gap.within : Gap.scanner.Within (fun _ => True) Malformation.Arises where
  onByte gap b _ := by
    have hblames := gap.blamesNext b
    show (gap.onByte b).Within _ _
    cases hbyte : gap.onByte b with
    | take next => trivial
    | finish last result =>
        rw [hbyte] at hblames
        cases result with
        | ok found => trivial
        | error refusal => exact hblames.elim
    | leave last result =>
        rw [hbyte] at hblames
        cases result with
        | ok found => trivial
        | error refusal =>
            obtain ⟨-, wanted, rfl⟩ := hblames
            exact ⟨by simp, by simp⟩
  onEnd gap cause h := by
    obtain ⟨nesting, due⟩ := gap
    cases nesting <;> simp [scanner, onEnd] at h

namespace TokenStart

theorem arises_of_ofScan {σ α : Type} {scanner : Scanner σ α} {inv : σ → Prop} {state : σ}
    (hwithin : scanner.Within inv Malformation.Arises) (hstate : inv state) {cursor : Cursor}
    {nesting : Nesting} {make : α → Token} {q : Position} {cause : Malformation}
    (h : (ofScan (scanner.run state cursor) nesting make).result = .error (.malformed q cause)) :
    cause.Arises := by
  have hrun : (scanner.run state cursor).result = .error (.malformed q cause) := by
    cases hresult : (scanner.run state cursor).result with
    | ok a => simp [ofScan, hresult, Except.map] at h
    | error other => simpa [ofScan, hresult, Except.map] using h
  exact hwithin.of_run hstate hrun

/-- Where a container is open the brackets that close it are no stray ones. -/
theorem arises_of_read {start : TokenStart} {nesting : Nesting} {cursor : Cursor} {q : Position}
    {cause : Malformation} (hopen : start = .exit → nesting ≠ [])
    (h : (start.read nesting cursor).result = .error (.malformed q cause)) : cause.Arises := by
  cases start with
  | enter container => simp [read] at h
  | exit =>
      obtain ⟨frame, outer, rfl⟩ := List.exists_cons_of_ne_nil (hopen rfl)
      simp [read, Nesting.exit] at h
  | key =>
      cases hresult : (PartialQuoted.scanner.run {} cursor).result with
      | ok name => simp [read, hresult] at h
      | error other =>
          simp only [read, hresult] at h
          obtain rfl := Except.error.inj h
          exact PartialQuoted.within.of_run PartialQuoted.bounded_start hresult
  | string => exact arises_of_ofScan PartialQuoted.within PartialQuoted.bounded_start h
  | number => exact arises_of_ofScan PartialNumber.within trivial h
  | literal word =>
      cases word with
      | bool value => exact arises_of_ofScan (Literal.within _) trivial h
      | null => exact arises_of_ofScan (Literal.within _) trivial h

end TokenStart

namespace Tokenizer

variable {tokenizer : Tokenizer} {q : Position} {cause : Malformation}

/-- **What no pull ever says**, in every state and over every feed. -/
theorem arises_of_malformed (h : tokenizer.pull.1 = .error (.malformed q cause)) :
    cause.Arises := by
  rcases tokenizer.pull_cases with ⟨-, -, hfails⟩ | ⟨start, read, hstart, rfl, -, hfails⟩
  · exact Gap.within.of_run trivial (hfails _ h)
  · refine TokenStart.arises_of_read ?_ (hfails _ h)
    rintro rfl
    -- A closing bracket is found where a container is open.
    obtain ⟨gap, inner, -, -, ⟨-, hnone, -⟩ | ⟨start, b, taken, hother, hbegins, -⟩⟩ :=
      tokenizer.exists_crosses
    · exact absurd hstart (hnone .exit)
    · obtain rfl : start = .exit := by simpa [hstart, eq_comm] using hother
      generalize tokenizer.crossGap.state.nesting = filled at hbegins ⊢
      cases hbegins with
      | exit _ => simp
      | value _ hb => cases hb

/-! ## The frames of a tokenizer -/

/-- What holds of a tokenizer that has been pulled, and of its next pull. -/
structure KeepsFrames (tokenizer : Tokenizer) : Prop where
  /-- Every container but the innermost one is done with the member or element that stands in it. -/
  outer : ∀ frame ∈ tokenizer.nesting.tail, frame.expects = .commaOrEnd
  object : ∀ frame ∈ tokenizer.nesting, frame.container = .object → frame.expects ≠ .valueOrEnd
  array : ∀ frame ∈ tokenizer.nesting, frame.container = .array →
    frame.expects ≠ .keyOrEnd ∧ frame.expects ≠ .key ∧ frame.expects ≠ .colon
  separatorDue : tokenizer.separatorDue = true → tokenizer.nesting = []
  /-- Of brackets the next pull takes none but one whose frame it opens or closes, and that
  whatever is delivered behind the bracket.  Colons and commas are taken likewise.  Behind them it
  takes a part of a text at most. -/
  consumes : ∃ taken, tokenizer.cursor.Advances tokenizer.pull.2.cursor taken ∧
    tokenizer.Consumes taken
  messages : ∀ q cause, tokenizer.pull.1 = .error (.malformed q cause) →
    cause.message ≠ "closing bracket without open container" ∧
      cause.message ≠ "invalid \\u escape"

/-- Regular frames and the causes that `Malformation.Arises` leaves are all that it takes. -/
theorem keepsFrames_of_regular (h : tokenizer.Regular) : KeepsFrames tokenizer := by
  have hframes := h.nesting.forall_isRegular
  constructor
  case outer =>
    intro frame hframe
    have hnesting := h.nesting
    cases hall : tokenizer.nesting with
    | nil => simp [hall] at hframe
    | cons first outer =>
        rw [hall] at hframe hnesting
        exact hnesting.2 frame hframe
  case object =>
    rintro ⟨container, expects⟩ hframe rfl rfl
    exact absurd (hframes _ hframe) (by decide)
  case array =>
    rintro ⟨container, expects⟩ hframe rfl
    have hregular := hframes _ hframe
    refine ⟨?_, ?_, ?_⟩
    all_goals
      rintro rfl
      exact absurd hregular (by decide)
  case separatorDue => exact h.due
  case consumes => exact exists_consumes tokenizer
  case messages =>
    intro q cause herror
    obtain ⟨taken, -, hblames⟩ := exists_blames herror
    obtain ⟨hstray, hcodePoint⟩ := Malformation.message_eq_message_iff hblames.ne_described
    obtain ⟨hne, hne'⟩ := arises_of_malformed herror
    exact ⟨fun hmessage => hne (hstray.mp hmessage), fun hmessage => hne' (hcodePoint.mp hmessage)⟩

/-- **Frames over every run.**  Whatever a reader delivers and however often it is pulled, with
errors of all kinds in between. -/
theorem keepsFrames (feed : Feed) (pulls : Nat) :
    KeepsFrames ((ofFeed feed).afterPulls pulls) :=
  keepsFrames_of_regular ((regular_ofFeed feed).afterPulls pulls)

end Tokenizer
end RequiredKeys
