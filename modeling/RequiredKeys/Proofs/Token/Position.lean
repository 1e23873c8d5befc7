import RequiredKeys.Proofs.Input.Position
import RequiredKeys.Proofs.Lexeme.Quoted
import RequiredKeys.Proofs.Lexeme.Number
import RequiredKeys.Proofs.Token.Gap
import RequiredKeys.Token.Transcript

/-!
# Where a tokenizer stands

A tokenizer may be pulled any number of times, over a feed with any failures in it, and whatever
the pulls answer.  `Tokenizer.Tracks` says that its position always tells what it has read: a
beginning of the document that grows from pull to pull, of which the line counts the line feeds and
the column the bytes behind the last of them.

* A pull is two scans at most, and each moves the cursor over what it takes
  (`Tokenizer.exists_advances_pull`); the calls after it go on from there.
* An error is reported where its pull has stopped (`Tokenizer.seenAt_pull`).  Since no table
  answers a byte with the end of the input (`BlamesEnd`), that error means that nothing is left.
* `Tokenizer.PeeksAt` is the byte that a pull has looked at and left: it is the next one to read.
-/

namespace RequiredKeys

/-! ## Only the end of the input is its end -/

theorem Gap.blamesEnd : Gap.scanner.BlamesEnd := by
  intro gap b
  show (gap.onByte b).result? ≠ _
  rcases gap.onByte_cases b with ⟨next, h, -, -⟩ | ⟨start, filled, h, -, -⟩ | ⟨last, cause, h⟩
  · simp [h, Verdict.result?]
  · rw [h, TokenStart.verdict]
    cases start.takesFirst <;> simp [Verdict.result?]
  · simp [h, Verdict.result?]

theorem PartialQuoted.blamesEnd : PartialQuoted.scanner.BlamesEnd := by
  intro quoted b
  show (quoted.onByte b).result? ≠ _
  rcases quoted.onByte_cases b with ⟨-, -, h⟩ | ⟨next, h⟩ | ⟨cause, h⟩
  · rw [h, close]
    cases String.fromUTF8? quoted.buffer <;> simp [Verdict.result?]
  · simp [h, Verdict.result?]
  · simp [h, giveUp, Verdict.result?]

theorem PartialNumber.blamesEnd : PartialNumber.scanner.BlamesEnd := by
  intro number b
  show (number.onByte b).result? ≠ _
  unfold onByte close
  cases number.phase.next? b with
  | some next => simp [Verdict.result?]
  | none => cases number.phase.lacking? <;> simp [Verdict.result?]

theorem Literal.blamesEnd (literal : Literal) : literal.scanner.BlamesEnd := by
  intro rest b
  show (literal.onByte rest b).result? ≠ _
  cases rest with
  | nil => simp [onByte, Verdict.result?]
  | cons wanted more =>
      by_cases hb : b = wanted
      · cases more <;> simp [onByte, hb, Verdict.result?]
      · simp [onByte, hb, Verdict.result?]

/-! ## One token -/

namespace TokenStart

theorem exists_advances_read (start : TokenStart) (nesting : Nesting) (cursor : Cursor) :
    ∃ taken, cursor.Advances (start.read nesting cursor).cursor taken := by
  cases start with
  | enter container => exact ⟨[], .refl cursor⟩
  | exit =>
      cases nesting with
      | nil => exact ⟨[], .refl cursor⟩
      | cons frame outer => exact ⟨[], .refl cursor⟩
  | key =>
      have hrun := PartialQuoted.scanner.exists_advances_run {} cursor
      cases hresult : (PartialQuoted.scanner.run {} cursor).result with
      | ok name => simpa [read, hresult] using hrun
      | error error => simpa [read, hresult] using hrun
  | string => exact PartialQuoted.scanner.exists_advances_run {} cursor
  | number => exact PartialNumber.scanner.exists_advances_run {} cursor
  | literal word => cases word <;> exact Scanner.exists_advances_run _ _ cursor

theorem seenAt_ofScan {σ α : Type} {scanner : Scanner σ α} (hblame : scanner.BlamesEnd)
    {state : σ} {cursor : Cursor} {nesting : Nesting} {make : α → Token} {error : StreamError}
    (h : (ofScan (scanner.run state cursor) nesting make).result = .error error) :
    error.SeenAt (ofScan (scanner.run state cursor) nesting make).cursor := by
  apply Scanner.seenAt_run hblame
  cases hresult : (scanner.run state cursor).result with
  | ok a => simp [ofScan, hresult, Except.map] at h
  | error other => simpa [ofScan, hresult, Except.map] using h

theorem seenAt_read {start : TokenStart} {nesting : Nesting} {cursor : Cursor}
    {error : StreamError} (h : (start.read nesting cursor).result = .error error) :
    error.SeenAt (start.read nesting cursor).cursor := by
  cases start with
  | enter container => simp [read] at h
  | exit =>
      cases nesting with
      | nil =>
          obtain rfl := Except.error.inj h
          exact StreamError.seenAt_malformed cursor .strayClose
      | cons frame outer => simp [read, Nesting.exit] at h
  | key =>
      cases hresult : (PartialQuoted.scanner.run {} cursor).result with
      | ok name => simp [read, hresult] at h
      | error other =>
          have hseen := Scanner.seenAt_run PartialQuoted.blamesEnd hresult
          simp only [read, hresult] at h ⊢
          obtain rfl := Except.error.inj h
          exact hseen
  | string => exact seenAt_ofScan PartialQuoted.blamesEnd h
  | number => exact seenAt_ofScan PartialNumber.blamesEnd h
  | literal word =>
      cases word with
      | bool value => exact seenAt_ofScan (Literal.blamesEnd _) h
      | null => exact seenAt_ofScan (Literal.blamesEnd _) h

end TokenStart

/-! ## One pull -/

namespace Tokenizer

/-- A pull looks at the byte `b` and does not take it.  Of the two scans of a pull the first stops
in front of a byte that begins no token, and the second only behind a number. -/
inductive PeeksAt (tokenizer : Tokenizer) (b : UInt8) : Prop
  | gap
      (hstops : Gap.scanner.StopsBefore ⟨tokenizer.nesting, tokenizer.separatorDue⟩
        tokenizer.cursor b)
      (hnone : ∀ start, tokenizer.crossGap.result ≠ .ok (some start))
  | number (hnumber : tokenizer.crossGap.result = .ok (some .number))
      (hstops : PartialNumber.scanner.StopsBefore {} tokenizer.crossGap.cursor b)

/-- A pull ends with the gap, or with the token that it finds behind the gap. -/
theorem pull_cases (tokenizer : Tokenizer) :
    ((∀ start, tokenizer.crossGap.result ≠ .ok (some start)) ∧
        tokenizer.pull.2.cursor = tokenizer.crossGap.cursor ∧
        ∀ error, tokenizer.pull.1 = .error error → tokenizer.crossGap.result = .error error) ∨
      ∃ start read, tokenizer.crossGap.result = .ok (some start) ∧
        read = start.read tokenizer.crossGap.state.nesting tokenizer.crossGap.cursor ∧
        tokenizer.pull.2.cursor = read.cursor ∧
        ∀ error, tokenizer.pull.1 = .error error → read.result = .error error := by
  cases hgap : tokenizer.crossGap.result with
  | error error => simp [pull, hgap]
  | ok found =>
      cases found with
      | none => simp [pull, hgap]
      | some start =>
          cases hread : (start.read tokenizer.crossGap.state.nesting
            tokenizer.crossGap.cursor).result with
          | error error => simp [pull, hgap, hread]
          | ok token => simp [pull, hgap, hread]

theorem exists_advances_pull (tokenizer : Tokenizer) :
    ∃ taken, tokenizer.cursor.Advances tokenizer.pull.2.cursor taken := by
  obtain ⟨gap, hgap⟩ : ∃ gap, tokenizer.cursor.Advances tokenizer.crossGap.cursor gap :=
    Gap.scanner.exists_advances_run _ _
  rcases tokenizer.pull_cases with ⟨-, hcursor, -⟩ | ⟨start, read, -, rfl, hcursor, -⟩
  · rw [hcursor]
    exact ⟨gap, hgap⟩
  · obtain ⟨lexeme, hlexeme⟩ :=
      start.exists_advances_read tokenizer.crossGap.state.nesting tokenizer.crossGap.cursor
    rw [hcursor]
    exact ⟨gap ++ lexeme, hgap.trans hlexeme⟩

/-- What a pull fails with is seen where the pull has stopped. -/
theorem seenAt_pull {tokenizer : Tokenizer} {error : StreamError}
    (h : tokenizer.pull.1 = .error error) : error.SeenAt tokenizer.pull.2.cursor := by
  rcases tokenizer.pull_cases with ⟨-, hcursor, hfails⟩ | ⟨start, read, -, rfl, hcursor, hfails⟩
  · rw [hcursor]
    exact Scanner.seenAt_run Gap.blamesEnd (hfails error h)
  · rw [hcursor]
    exact TokenStart.seenAt_read (hfails error h)

/-- What a pull has only looked at is the first byte to come. -/
theorem PeeksAt.exists_feed_pull {tokenizer : Tokenizer} {b : UInt8} (h : tokenizer.PeeksAt b) :
    ∃ rest, tokenizer.pull.2.cursor.feed = .byte b :: rest := by
  rcases tokenizer.pull_cases with ⟨hnone, hcursor, -⟩ | ⟨start, read, hstart, rfl, hcursor, -⟩
  · rw [hcursor]
    cases h with
    | gap hstops _ => exact hstops.exists_feed_run
    | number hnumber _ => exact absurd hnumber (hnone .number)
  · rw [hcursor]
    cases h with
    | gap _ hnone => exact absurd hstart (hnone start)
    | number hnumber hstops =>
        obtain rfl : start = .number := by simpa [hnumber, eq_comm] using hstart
        exact hstops.exists_feed_run

/-! ## Any number of pulls -/

theorem afterPulls_add (tokenizer : Tokenizer) (first second : Nat) :
    tokenizer.afterPulls (first + second) = (tokenizer.afterPulls first).afterPulls second := by
  induction first generalizing tokenizer with
  | zero => rw [Nat.zero_add, afterPulls]
  | succ first ih => rw [Nat.succ_add, afterPulls, afterPulls, ih]

/-- The last of some pulls comes behind the others. -/
theorem afterPulls_succ (tokenizer : Tokenizer) (pulls : Nat) :
    tokenizer.afterPulls (pulls + 1) = (tokenizer.afterPulls pulls).pull.2 :=
  tokenizer.afterPulls_add pulls 1

theorem exists_advances_afterPulls (tokenizer : Tokenizer) (pulls : Nat) :
    ∃ taken, tokenizer.cursor.Advances (tokenizer.afterPulls pulls).cursor taken := by
  induction pulls generalizing tokenizer with
  | zero => exact ⟨[], .refl _⟩
  | succ pulls ih =>
      obtain ⟨first, hfirst⟩ := tokenizer.exists_advances_pull
      obtain ⟨more, hmore⟩ := ih tokenizer.pull.2
      exact ⟨first ++ more, hfirst.trans hmore⟩

/-- The bytes that some pulls have read: what the feed held at first and holds no more. -/
def consumed (feed : Feed) (pulls : Nat) : List UInt8 :=
  feed.bytes.take
    (feed.bytes.length - ((ofFeed feed).afterPulls pulls).cursor.feed.bytes.length)

theorem advances_consumed (feed : Feed) (pulls : Nat) :
    (ofFeed feed).cursor.Advances ((ofFeed feed).afterPulls pulls).cursor
      (consumed feed pulls) := by
  obtain ⟨taken, h⟩ := (ofFeed feed).exists_advances_afterPulls pulls
  have hbytes : feed.bytes = taken ++ ((ofFeed feed).afterPulls pulls).cursor.feed.bytes := h.bytes
  have hconsumed : consumed feed pulls = taken := by
    rw [consumed, hbytes, List.length_append, Nat.add_sub_cancel, List.take_left]
  rw [hconsumed]
  exact h

/-- Every position is the one behind what has been read. -/
theorem position_afterPulls (feed : Feed) (pulls : Nat) :
    ((ofFeed feed).afterPulls pulls).cursor.position =
      ⟨1 + (consumed feed pulls).count Ascii.lineFeed,
        1 + (lastLine (consumed feed pulls)).length⟩ := by
  have hposition : ((ofFeed feed).afterPulls pulls).cursor.position =
      Position.start.afterAll (consumed feed pulls) := (advances_consumed feed pulls).position
  have hline := Position.line_afterAll Position.start (consumed feed pulls)
  have hcolumn := Position.column_afterAll_start (consumed feed pulls)
  rw [hposition]
  exact congrArg₂ Position.mk hline hcolumn

/-- What the positions of a tokenizer over `feed` say, after any number of pulls. -/
structure Tracks (feed : Feed) : Prop where
  splits : ∀ pulls, feed.bytes =
    consumed feed pulls ++ ((ofFeed feed).afterPulls pulls).cursor.feed.bytes
  grows : ∀ pulls more, consumed feed pulls <+: consumed feed (pulls + more)
  line : ∀ pulls, ((ofFeed feed).afterPulls pulls).position.line =
    1 + (consumed feed pulls).count Ascii.lineFeed
  column : ∀ pulls, ((ofFeed feed).afterPulls pulls).position.column =
    1 + (lastLine (consumed feed pulls)).length
  /-- A byte that is only looked at is not among those that are counted. -/
  peeked : ∀ pulls b, ((ofFeed feed).afterPulls pulls).PeeksAt b →
    ∃ rest, feed.bytes = consumed feed (pulls + 1) ++ b :: rest
  /-- Malformed text and the end of the input are reported behind all that has been read. -/
  located : ∀ pulls error q, ((ofFeed feed).afterPulls pulls).pull.1 = .error error →
    error.position? = some q →
      q.line = 1 + (consumed feed (pulls + 1)).count Ascii.lineFeed ∧
        q.column = 1 + (lastLine (consumed feed (pulls + 1))).length
  /-- The end of the input is reported at the end of the document. -/
  ended : ∀ pulls q, ((ofFeed feed).afterPulls pulls).pull.1 = .error (.truncated q) →
    consumed feed (pulls + 1) = feed.bytes

/-- **The position of a tokenizer is what it has read**, at any time. -/
theorem tracks (feed : Feed) : Tracks feed where
  splits pulls := (advances_consumed feed pulls).bytes
  grows pulls more := by
    obtain ⟨taken, h⟩ := ((ofFeed feed).afterPulls pulls).exists_advances_afterPulls more
    have hboth := (advances_consumed feed pulls).trans h
    rw [← afterPulls_add] at hboth
    have hwhole := (advances_consumed feed (pulls + more)).bytes
    rw [hboth.bytes] at hwhole
    exact ⟨taken, List.append_cancel_right hwhole⟩
  line pulls := congrArg Position.line (position_afterPulls feed pulls)
  column pulls := congrArg Position.column (position_afterPulls feed pulls)
  peeked pulls b h := by
    obtain ⟨rest, hrest⟩ := h.exists_feed_pull
    have hbytes := (advances_consumed feed (pulls + 1)).bytes
    rw [afterPulls_succ, hrest, Feed.bytes_byte] at hbytes
    exact ⟨Feed.bytes rest, hbytes⟩
  located pulls error q h hq := by
    have hposition := position_afterPulls feed (pulls + 1)
    rw [afterPulls_succ, ← (seenAt_pull h).position q hq] at hposition
    rw [hposition]
    exact ⟨rfl, rfl⟩
  ended pulls q h := by
    have hbytes := (advances_consumed feed (pulls + 1)).bytes
    rw [afterPulls_succ, (seenAt_pull h).ended q rfl, Feed.bytes_nil, List.append_nil] at hbytes
    exact hbytes.symm

/-- The number of `1,` is given when its comma has been looked at, and the position is in front of
the comma. -/
example : (ofBytes [0x31, 0x2c]).PeeksAt 0x2c ∧
    ((ofBytes [0x31, 0x2c]).afterPulls 1).position = ⟨1, 2⟩ :=
  ⟨.number rfl ⟨[0x31], _, _, _, [], rfl, rfl, rfl⟩, rfl⟩

end Tokenizer
end RequiredKeys
