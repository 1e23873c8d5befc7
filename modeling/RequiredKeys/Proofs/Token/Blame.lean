import RequiredKeys.Proofs.Input.Message
import RequiredKeys.Proofs.Token.Position

/-!
# The byte that an error names

Some of the messages about malformed text quote a byte.  Whether it is the next byte of the
document or the last one that has been read depends on the table that has refused it, and so does
what the position of the error means for it:

* Between two tokens a byte is refused before it is taken (`Gap.blamesNext`).  It stands where the
  error is reported, and nothing but the gap in front of it has been read.
* Inside a token a byte is refused when it has been taken (`Malformation.BlamesLast`).  It stands
  directly in front of the position, unless it is a line feed, behind which a line begins.

`Malformation.Blames` says which of the two a cause does, for one pull, and
`Tokenizer.namesByte_of_malformed` reads it off the message, the position and the document.
-/

namespace RequiredKeys

open Ascii

/-! ## What the tables blame -/

/-- What a cause found inside a token names: no byte, or the last one taken. -/
def Malformation.BlamesLast (last? : Option UInt8) : Malformation → Prop
  | .unexpected _ _ => False
  | .described _ => False
  | .badEscape b => last? = some b
  | _ => True

theorem Malformation.BlamesLast.of_none {cause : Malformation} (h : cause.BlamesLast none)
    (last? : Option UInt8) : cause.BlamesLast last? := by
  cases cause with
  | badEscape b => simp [BlamesLast] at h
  | _ => exact h

/-- A verdict on `b` blames that byte only where it takes it. -/
def Verdict.BlamesTaken {σ α : Type} (b : UInt8) : Verdict σ α → Prop
  | .finish _ (.error (.malformed cause)) => cause.BlamesLast (some b)
  | .leave _ (.error (.malformed cause)) => cause.BlamesLast none
  | _ => True

/-- A scanner blames what it has taken. -/
structure Scanner.BlamesTaken {σ α : Type} (scanner : Scanner σ α) : Prop where
  onByte : ∀ state b, (scanner.onByte state b).BlamesTaken b
  onEnd : ∀ state cause, scanner.onEnd state = .error (.malformed cause) → cause.BlamesLast none

namespace PartialQuoted

theorem blamesTaken_addCodePoint (quoted : PartialQuoted) (code : Nat) (b : UInt8) :
    (quoted.addCodePoint code).BlamesTaken b := by
  unfold addCodePoint
  cases charOfCodePoint? code with
  | some c => trivial
  | none => trivial

theorem blamesTaken_addUnit (quoted : PartialQuoted) (unit : Nat) (b : UInt8) :
    (quoted.addUnit unit).BlamesTaken b := by
  unfold addUnit
  cases isHighSurrogate unit with
  | true => trivial
  | false =>
      cases isLowSurrogate unit with
      | true => trivial
      | false => exact quoted.blamesTaken_addCodePoint unit b

theorem blamesTaken_addPair (quoted : PartialQuoted) (high low : Nat) (b : UInt8) :
    (quoted.addPair high low).BlamesTaken b := by
  unfold addPair
  by_cases hlow : isLowSurrogate low = true
  · rw [if_pos hlow]
    generalize pairedCodePoint high low = code
    exact quoted.blamesTaken_addCodePoint code b
  · rw [if_neg hlow]
    trivial

/-- Of the bytes that a string refuses only the letter of an escape is named. -/
theorem blamesTaken : scanner.BlamesTaken where
  onByte quoted b := by
    show (quoted.onByte b).BlamesTaken b
    obtain ⟨mode, buffer⟩ := quoted
    cases mode with
    | plain =>
        simp only [onByte, close]
        split
        · cases String.fromUTF8? buffer <;> trivial
        · split
          · trivial
          · split <;> trivial
    | escape =>
        simp only [onByte]
        split
        · trivial
        · cases shortEscape? b with
          | some c => trivial
          | none => exact rfl
    | unit count value =>
        simp only [onByte]
        cases hexValue? b with
        | none => trivial
        | some digit =>
            by_cases hcount : count < 3
            · simp only [if_pos hcount]
              trivial
            · simp only [if_neg hcount]
              exact blamesTaken_addUnit _ _ b
    | pairBackslash high =>
        simp only [onByte]
        split <;> trivial
    | pairLetter high =>
        simp only [onByte]
        split <;> trivial
    | pairUnit high count value =>
        simp only [onByte]
        cases hexValue? b with
        | none => trivial
        | some digit =>
            by_cases hcount : count < 3
            · simp only [if_pos hcount]
              trivial
            · simp only [if_neg hcount]
              exact blamesTaken_addPair _ _ _ b
  onEnd quoted cause h := by simp [scanner] at h

end PartialQuoted

theorem PartialNumber.blamesTaken : PartialNumber.scanner.BlamesTaken where
  onByte number b := by
    show (number.onByte b).BlamesTaken b
    unfold onByte close
    cases number.phase.next? b with
    | some phase => trivial
    | none => cases number.phase.lacking? <;> trivial
  onEnd number cause h := by
    have hclose : number.close = .error (.malformed cause) := h
    unfold close at hclose
    cases hlacking : number.phase.lacking? with
    | none => simp [hlacking] at hclose
    | some part =>
        obtain rfl : Malformation.missingDigit part = cause := by simpa [hlacking] using hclose
        trivial

theorem Literal.blamesTaken (literal : Literal) : literal.scanner.BlamesTaken where
  onByte rest b := by
    show (literal.onByte rest b).BlamesTaken b
    cases rest with
    | nil => trivial
    | cons wanted more =>
        simp only [onByte]
        split
        · split <;> trivial
        · trivial
  onEnd rest cause h := by
    cases rest with
    | nil => simp [scanner] at h
    | cons wanted more => simp [scanner] at h

namespace Gap

/-- A verdict on `b` refuses that byte only where it leaves it, and then by its name.  White space
is never refused. -/
def BlamesNext (b : UInt8) : Verdict Gap (Option TokenStart) → Prop
  | .finish _ (.error _) => False
  | .leave _ (.error refusal) =>
    isBlank b = false ∧ ∃ wanted, refusal = .malformed (.unexpected b wanted)
  | _ => True

theorem blamesNext_beginValue (gap : Gap) {b : UInt8} (hb : isBlank b = false) :
    BlamesNext b (gap.beginValue b) := by
  unfold beginValue
  split
  case h_4 =>
    split
    · trivial
    · split
      · trivial
      · exact ⟨hb, _, rfl⟩
  all_goals trivial

/-- **Between two tokens the next byte is blamed.** -/
theorem blamesNext (gap : Gap) (b : UInt8) : BlamesNext b (gap.onByte b) := by
  unfold onByte
  by_cases hseparator : (gap.separatorDue && !separates b) = true
  · rw [if_pos hseparator]
    have hblank : isBlank b = false := by
      cases hb : isBlank b with
      | false => rfl
      | true => simp [separates, hb] at hseparator
    exact ⟨hblank, _, rfl⟩
  · rw [if_neg hseparator]
    by_cases hblank : isBlank b = true
    · rw [if_pos hblank]
      trivial
    · rw [if_neg hblank]
      have hb : isBlank b = false := by simpa using hblank
      cases gap.nesting with
      | nil => exact gap.blamesNext_beginValue hb
      | cons frame outer =>
          show BlamesNext b (onInnerByte frame outer b)
          unfold onInnerByte
          split
          · trivial
          · split
            · trivial
            · split
              · trivial
              · split
                · exact blamesNext_beginValue _ hb
                · exact ⟨hb, _, rfl⟩

end Gap

/-- A gap consists of white space, colons and commas. -/
theorem Nesting.Crosses.forall_mem {nesting inner : Nesting} {gap : List UInt8}
    (h : nesting.Crosses gap inner) :
    ∀ b ∈ gap, isBlank b = true ∨ b = colon ∨ b = comma := by
  induction h with
  | nil => simp
  | blank hb _ ih =>
      intro c hc
      rcases List.mem_cons.mp hc with rfl | hc
      · exact .inl hb
      · exact ih c hc
  | @punctuation frame _ _ b _ _ hb _ ih =>
      intro c hc
      rcases List.mem_cons.mp hc with rfl | hc
      · obtain ⟨container, expects⟩ := frame
        right
        cases container <;> cases expects <;> simp_all [Frame.afterPunctuation?]
      · exact ih c hc

/-! ## What a scan blames -/

/-- What the cause of an error says of the bytes that its pull has taken, and of the feed behind
them. -/
inductive Malformation.Blames (cause : Malformation) (taken : List UInt8) (behind : Feed) : Prop
  /-- Of the bytes taken it can name only the last one. -/
  | last (h : cause.BlamesLast taken.getLast?)
  /-- It names the byte that is next, and a gap has been taken in front of that one. -/
  | next {b : UInt8} {wanted : Wanted} {rest : Feed} (hcause : cause = .unexpected b wanted)
      (hblank : isBlank b = false) (hbehind : behind = .byte b :: rest)
      (htaken : ∀ c ∈ taken, isBlank c = true ∨ c = colon ∨ c = comma)

/-- A table of this library describes its causes itself. -/
theorem Malformation.Blames.ne_described {cause : Malformation} {taken : List UInt8}
    {behind : Feed} (h : cause.Blames taken behind) (text : String) : cause ≠ .described text := by
  rintro rfl
  cases h with
  | last hlast => exact hlast
  | next hcause => simp at hcause

namespace Scanner

variable {σ α : Type} {scanner : Scanner σ α}

theorem BlamesTaken.blamesLast (hblames : scanner.BlamesTaken) {state last : σ}
    {taken : List UInt8} {rest : Feed} {cause : Malformation}
    (h : scanner.Completes state taken rest last (.error (.malformed cause))) :
    cause.BlamesLast taken.getLast? := by
  rcases completes_iff.mp h with ⟨-, -, hend⟩ | ⟨before, b, mid, rfl, -, hbyte⟩ |
    ⟨mid, b, more, -, -, hbyte⟩
  · exact (hblames.onEnd last cause hend).of_none _
  · have hlast := hblames.onByte mid b
    rw [hbyte] at hlast
    rw [List.getLast?_concat]
    exact hlast
  · have hnone := hblames.onByte mid b
    rw [hbyte] at hnone
    exact Malformation.BlamesLast.of_none hnone _

/-- A scan inside a token blames what it has taken. -/
theorem BlamesTaken.exists_of_run (hblames : scanner.BlamesTaken) {state : σ} {cursor : Cursor}
    {q : Position} {cause : Malformation}
    (h : (scanner.run state cursor).result = .error (.malformed q cause)) :
    ∃ taken, cursor.Advances (scanner.run state cursor).cursor taken ∧
      cause.BlamesLast taken.getLast? := by
  obtain ⟨taken, last, hadvances, hcompletes⟩ := exists_completes_of_malformed h
  exact ⟨taken, hadvances, hblames.blamesLast hcompletes⟩

end Scanner

/-- A scan of a gap blames what comes next. -/
theorem Gap.blames_of_run {gap : Gap} {cursor : Cursor} {q : Position} {cause : Malformation}
    (h : (scanner.run gap cursor).result = .error (.malformed q cause)) :
    ∃ taken, cursor.Advances (scanner.run gap cursor).cursor taken ∧
      cause.Blames taken (scanner.run gap cursor).cursor.feed := by
  obtain ⟨taken, last, hadvances, hcompletes⟩ := Scanner.exists_completes_of_malformed h
  refine ⟨taken, hadvances, ?_⟩
  rcases Scanner.completes_iff.mp hcompletes with ⟨-, -, hend⟩ | ⟨before, b, mid, -, -, hbyte⟩ |
    ⟨mid, b, more, htaken, hrest, hbyte⟩
  · obtain ⟨nesting, due⟩ := last
    cases nesting with
    | nil => simp [scanner, onEnd] at hend
    | cons frame outer => simp [scanner, onEnd] at hend
  · have hfinish := mid.blamesNext b
    rw [show mid.onByte b = _ from hbyte] at hfinish
    exact hfinish.elim
  · have hleave := mid.blamesNext b
    rw [show mid.onByte b = _ from hbyte] at hleave
    obtain ⟨hblank, wanted, hrefusal⟩ := hleave
    exact .next (Refusal.malformed.inj hrefusal) hblank hrest
      (afterAll?_eq_some_iff.mp htaken).1.forall_mem

/-! ## What a pull blames -/

namespace TokenStart

theorem exists_of_ofScan {σ α : Type} {scanner : Scanner σ α} (hblames : scanner.BlamesTaken)
    {state : σ} {cursor : Cursor} {nesting : Nesting} {make : α → Token} {q : Position}
    {cause : Malformation}
    (h : (ofScan (scanner.run state cursor) nesting make).result = .error (.malformed q cause)) :
    ∃ taken, cursor.Advances (ofScan (scanner.run state cursor) nesting make).cursor taken ∧
      cause.BlamesLast taken.getLast? := by
  apply hblames.exists_of_run
  cases hresult : (scanner.run state cursor).result with
  | ok a => simp [ofScan, hresult, Except.map] at h
  | error other => simpa [ofScan, hresult, Except.map] using h

/-- Reading a token blames what has been taken of it. -/
theorem exists_of_read {start : TokenStart} {nesting : Nesting} {cursor : Cursor} {q : Position}
    {cause : Malformation}
    (h : (start.read nesting cursor).result = .error (.malformed q cause)) :
    ∃ taken, cursor.Advances (start.read nesting cursor).cursor taken ∧
      cause.BlamesLast taken.getLast? := by
  cases start with
  | enter container => simp [read] at h
  | exit =>
      cases nesting with
      | nil =>
          obtain ⟨-, rfl⟩ : cursor.position = q ∧ Malformation.strayClose = cause := by
            simpa [read, Nesting.exit, Refusal.seenAt] using h
          exact ⟨[], .refl cursor, trivial⟩
      | cons frame outer => simp [read, Nesting.exit] at h
  | key =>
      cases hresult : (PartialQuoted.scanner.run {} cursor).result with
      | ok name => simp [read, hresult] at h
      | error other =>
          simp only [read, hresult] at h ⊢
          obtain rfl := Except.error.inj h
          exact PartialQuoted.blamesTaken.exists_of_run hresult
  | string => exact exists_of_ofScan PartialQuoted.blamesTaken h
  | number => exact exists_of_ofScan PartialNumber.blamesTaken h
  | literal word =>
      cases word with
      | bool value => exact exists_of_ofScan (Literal.blamesTaken _) h
      | null => exact exists_of_ofScan (Literal.blamesTaken _) h

end TokenStart

namespace Tokenizer

/-- **What an error blames**, in one pull. -/
theorem exists_blames {tokenizer : Tokenizer} {q : Position} {cause : Malformation}
    (h : tokenizer.pull.1 = .error (.malformed q cause)) :
    ∃ taken, tokenizer.cursor.Advances tokenizer.pull.2.cursor taken ∧
      cause.Blames taken tokenizer.pull.2.cursor.feed := by
  rcases tokenizer.pull_cases with ⟨-, hcursor, hfails⟩ | ⟨start, read, -, rfl, hcursor, hfails⟩
  · rw [hcursor]
    exact Gap.blames_of_run (hfails _ h)
  · rw [hcursor]
    obtain ⟨gap, hgap⟩ : ∃ gap, tokenizer.cursor.Advances tokenizer.crossGap.cursor gap :=
      Gap.scanner.exists_advances_run _ _
    obtain ⟨lexeme, hlexeme, hlast⟩ := TokenStart.exists_of_read (hfails _ h)
    refine ⟨gap ++ lexeme, hgap.trans hlexeme, .last ?_⟩
    -- A token of which nothing has been taken names no byte, so it does not name one of the gap.
    cases hbyte : lexeme.getLast? with
    | none =>
        rw [hbyte] at hlast
        exact hlast.of_none _
    | some b =>
        rw [hbyte] at hlast
        rw [List.getLast?_append, hbyte]
        exact hlast

/-! ## What a message says -/

theorem consumed_succ {feed : Feed} {pulls : Nat} {taken : List UInt8}
    (h : ((ofFeed feed).afterPulls pulls).cursor.Advances
      ((ofFeed feed).afterPulls pulls).pull.2.cursor taken) :
    consumed feed (pulls + 1) = consumed feed pulls ++ taken := by
  have hboth := (advances_consumed feed pulls).trans h
  have hwhole := (advances_consumed feed (pulls + 1)).bytes
  rw [← afterPulls_succ] at hboth
  rw [hboth.bytes] at hwhole
  exact (List.append_cancel_right hwhole).symm

/-- What the message of a syntax error says of the document, where the pull behind some others
reports it at `q`. -/
structure NamesByte (feed : Feed) (pulls : Nat) (q : Position) (cause : Malformation) : Prop where
  printable : Printable (StreamError.malformed q cause).message
  /-- An unexpected character is a byte that has not been read and stands at the position.  In
  front of it the pull has read white space, colons and commas. -/
  unexpected : ∀ text, cause.message = "unexpected character '" ++ text →
    ∃ b, ∃ wanted : Wanted, ∃ gap rest, text = Ascii.shown b ++ "' (" ++ wanted.description ++ ")" ∧
      consumed feed (pulls + 1) = consumed feed pulls ++ gap ∧
      (∀ c ∈ gap, isBlank c = true ∨ c = colon ∨ c = comma) ∧
      feed.bytes = consumed feed (pulls + 1) ++ b :: rest ∧ StandsAt feed.bytes b q
  /-- The character of an invalid escape is the last byte that the pull has read.  The position is
  the one behind it. -/
  escape : ∀ text, cause.message = "invalid escape '\\" ++ text →
    ∃ b before p, text = Ascii.shown b ++ "'" ∧
      consumed feed (pulls + 1) = consumed feed pulls ++ before ++ [b] ∧
      q = p.after b ∧ (b ≠ lineFeed → StandsAt feed.bytes b p)

/-- **A message that names a byte names the byte of the document**, whatever the bytes are and
whatever has been read before. -/
theorem namesByte_of_malformed {feed : Feed} {pulls : Nat} {q : Position} {cause : Malformation}
    (h : ((ofFeed feed).afterPulls pulls).pull.1 = .error (.malformed q cause)) :
    NamesByte feed pulls q cause := by
  obtain ⟨taken, hadvances, hblames⟩ := exists_blames h
  have hconsumed := consumed_succ hadvances
  have hbehind := advances_consumed feed (pulls + 1)
  rw [afterPulls_succ] at hbehind
  have hdocument : feed.bytes = consumed feed (pulls + 1) ++
      ((ofFeed feed).afterPulls pulls).pull.2.cursor.feed.bytes := hbehind.bytes
  have hposition : q = Position.start.afterAll (consumed feed (pulls + 1)) :=
    ((seenAt_pull h).position q rfl).trans hbehind.position
  constructor
  case printable => exact StreamError.printable_message_malformed hblames.ne_described
  case unexpected =>
    intro text hmessage
    obtain ⟨b, wanted, rfl, rfl⟩ :=
      Malformation.exists_of_message_unexpected hblames.ne_described hmessage
    cases hblames with
    | last hlast => exact hlast.elim
    | @next _ _ rest hcause hblank hnext hgap =>
        obtain ⟨rfl, -⟩ := Malformation.unexpected.inj hcause
        rw [hnext, Feed.bytes_byte] at hdocument
        have hb : b ≠ lineFeed := by
          rintro rfl
          simp [isBlank] at hblank
        refine ⟨b, wanted, taken, Feed.bytes rest, rfl, hconsumed, hgap, hdocument, ?_⟩
        rw [hposition, hdocument]
        exact standsAt_afterAll (consumed feed (pulls + 1)) hb (Feed.bytes rest)
  case escape =>
    intro text hmessage
    obtain ⟨b, rfl, rfl⟩ := Malformation.exists_of_message_escape hblames.ne_described hmessage
    cases hblames with
    | next hcause => simp at hcause
    | last hlast =>
        obtain ⟨before, rfl⟩ := List.getLast?_eq_some_iff.mp hlast
        have hread : consumed feed (pulls + 1) = (consumed feed pulls ++ before) ++ [b] := by
          rw [hconsumed, List.append_assoc]
        refine ⟨b, before, Position.start.afterAll (consumed feed pulls ++ before), rfl, hread,
          ?_, ?_⟩
        · rw [hposition, hread]
          exact Position.afterAll_append _ _ _
        · intro hb
          rw [hread, List.append_assoc] at hdocument
          rw [hdocument]
          exact standsAt_afterAll (consumed feed pulls ++ before) hb _

/-- In `[ ` the byte behind the blank is refused where it stands, though it is no ASCII. -/
theorem namesByte_of_malformed_bracket :
    ((ofBytes [0x5b, 0x20, 0xc3]).afterPulls 1).pull.1 =
        .error (.malformed ⟨1, 3⟩ (.unexpected 0xc3 .value)) ∧
      NamesByte (Feed.ofBytes [0x5b, 0x20, 0xc3]) 1 ⟨1, 3⟩ (.unexpected 0xc3 .value) :=
  ⟨rfl, namesByte_of_malformed rfl⟩

/-- A line feed that is escaped has been read, so the position is on the line behind it. -/
example : (ofBytes [0x22, 0x5c, 0x0a]).pull.1 = .error (.malformed ⟨2, 1⟩ (.badEscape 0x0a)) := by
  rfl

end Tokenizer
end RequiredKeys
