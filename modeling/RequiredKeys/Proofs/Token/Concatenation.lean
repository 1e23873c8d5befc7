import RequiredKeys.Proofs.Input.Position
import RequiredKeys.Proofs.Token.Retry

/-!
# One document behind another

At the end of a document no container is open, and behind a line feed no separator is due.  So
whatever follows is read as if it stood alone, and only its lines are counted on.

* `movedDown` puts a position, and all that has one, some lines further down.  The line is
  counted and never looked at: `Scanner.runFrom_movedDown` says so for every scan,
  `Tokenizer.pull_movedDown` for a pull and `Tokenizer.transcript_movedDown` for a whole run.
* `Tokenizer.transcript_of_succession` follows the lexemes of the first document, with any feed
  behind the line feed.

The first document has to be complete.  What follows it may be malformed, and then the run fails
as it fails on the second document alone.
-/

namespace RequiredKeys

open Ascii

/-! ## Further down -/

namespace Position

/-- The same column, some lines further down. -/
def movedDown (lines : Nat) (p : Position) : Position :=
  ⟨p.line + lines, p.column⟩

theorem after_movedDown (lines : Nat) (p : Position) (b : UInt8) :
    (p.movedDown lines).after b = (p.after b).movedDown lines := by
  unfold after movedDown
  split
  · rw [Nat.add_right_comm]
  · rfl

/-- Behind a line feed the position is the one before the first byte, further down. -/
theorem afterAll_lineFeed (document : List UInt8) :
    start.afterAll (document ++ [lineFeed]) = start.movedDown (document.count lineFeed + 1) := by
  have hline := line_afterAll start document
  rw [afterAll_append]
  show Position.mk ((start.afterAll document).line + 1) 1 = _
  rw [hline, Nat.add_assoc]
  rfl

end Position

namespace StreamError

/-- The same failure, noticed some lines further down. -/
def movedDown (lines : Nat) : StreamError → StreamError
  | unreadable reason => unreadable reason
  | malformed p cause => malformed (p.movedDown lines) cause
  | truncated p => truncated (p.movedDown lines)

@[simp] theorem code_movedDown (lines : Nat) (error : StreamError) :
    (error.movedDown lines).code = error.code := by
  cases error <;> rfl

end StreamError

theorem Refusal.seenAt_movedDown (lines : Nat) (refusal : Refusal) (p : Position) :
    refusal.seenAt (p.movedDown lines) = (refusal.seenAt p).movedDown lines := by
  cases refusal <;> rfl

def Cursor.movedDown (lines : Nat) (cursor : Cursor) : Cursor :=
  ⟨cursor.feed, cursor.position.movedDown lines⟩

def Scan.movedDown {σ α : Type} (lines : Nat) (scan : Scan σ α) : Scan σ α :=
  ⟨scan.result.mapError (·.movedDown lines), scan.state, scan.cursor.movedDown lines⟩

def TokenRead.movedDown (lines : Nat) (read : TokenRead) : TokenRead :=
  ⟨read.result.mapError (·.movedDown lines), read.nesting, read.cursor.movedDown lines⟩

namespace Scanner

variable {σ α : Type}

theorem located_movedDown (lines : Nat) (p : Position) (result : Except Refusal α) :
    located (p.movedDown lines) result = (located p result).mapError (·.movedDown lines) := by
  cases result with
  | ok a => rfl
  | error refusal => exact congrArg Except.error (refusal.seenAt_movedDown lines p)

/-- **No scan looks at the line.**  One case per verdict. -/
theorem runFrom_movedDown (scanner : Scanner σ α) (lines : Nat) (state : σ) (feed : Feed)
    (p : Position) :
    scanner.runFrom state feed (p.movedDown lines) =
      (scanner.runFrom state feed p).movedDown lines := by
  induction feed generalizing state p with
  | nil =>
      rw [runFrom_nil, runFrom_nil, located_movedDown]
      rfl
  | cons delivery feed ih =>
      cases delivery with
      | failure reason => rfl
      | byte b =>
          cases hbyte : scanner.onByte state b with
          | take next =>
              rw [runFrom_take hbyte, runFrom_take hbyte, Position.after_movedDown, ih]
          | finish last result =>
              rw [runFrom_finish hbyte, runFrom_finish hbyte, Position.after_movedDown,
                located_movedDown]
              rfl
          | leave last result =>
              rw [runFrom_leave hbyte, runFrom_leave hbyte, located_movedDown]
              rfl

theorem run_movedDown (scanner : Scanner σ α) (lines : Nat) (state : σ) (cursor : Cursor) :
    scanner.run state (cursor.movedDown lines) = (scanner.run state cursor).movedDown lines :=
  scanner.runFrom_movedDown lines state cursor.feed cursor.position

end Scanner

namespace TokenStart

theorem ofScan_movedDown {σ α : Type} (lines : Nat) (scan : Scan σ α) (nesting : Nesting)
    (token : α → Token) :
    ofScan (scan.movedDown lines) nesting token = (ofScan scan nesting token).movedDown lines := by
  obtain ⟨result, state, cursor⟩ := scan
  cases result <;> rfl

theorem read_movedDown (lines : Nat) (start : TokenStart) (nesting : Nesting) (cursor : Cursor) :
    start.read nesting (cursor.movedDown lines) =
      (start.read nesting cursor).movedDown lines := by
  cases start with
  | enter container => rfl
  | exit =>
      cases nesting with
      | nil => rfl
      | cons frame outer => rfl
  | key =>
      simp only [read]
      rw [Scanner.run_movedDown]
      obtain ⟨result, state, behind⟩ := PartialQuoted.scanner.run {} cursor
      cases result <;> rfl
  | string =>
      simp only [read]
      rw [Scanner.run_movedDown, ofScan_movedDown]
  | number =>
      simp only [read]
      rw [Scanner.run_movedDown, ofScan_movedDown]
  | literal word =>
      cases word <;>
        (simp only [read]
         rw [Scanner.run_movedDown, ofScan_movedDown])

end TokenStart

namespace Tokenizer

/-- The same tokenizer, some lines further down. -/
def movedDown (lines : Nat) (tokenizer : Tokenizer) : Tokenizer :=
  { tokenizer with cursor := tokenizer.cursor.movedDown lines }

/-- An answer that is a failure is noticed some lines further down; the others have no place. -/
def Answer.movedDown (lines : Nat) (answer : Answer) : Answer :=
  answer.mapError (·.movedDown lines)

theorem crossGap_movedDown (lines : Nat) (tokenizer : Tokenizer) :
    (tokenizer.movedDown lines).crossGap = tokenizer.crossGap.movedDown lines :=
  Gap.scanner.run_movedDown lines _ tokenizer.cursor

/-- **No pull looks at the line.** -/
theorem pull_movedDown (lines : Nat) (tokenizer : Tokenizer) :
    (tokenizer.movedDown lines).pull =
      (Answer.movedDown lines tokenizer.pull.1, tokenizer.pull.2.movedDown lines) := by
  unfold pull
  rw [crossGap_movedDown]
  obtain ⟨result, last, cursor⟩ := tokenizer.crossGap
  cases result with
  | error error => rfl
  | ok found =>
      cases found with
      | none => rfl
      | some start =>
          have hfound : (Except.ok (some start) : Except StreamError _).mapError
              (·.movedDown lines) = .ok (some start) := rfl
          simp only [Scan.movedDown, hfound]
          rw [TokenStart.read_movedDown]
          obtain ⟨answer, after, final⟩ := start.read last.nesting cursor
          cases answer <;> rfl

/-- **No run looks at the line**, however often it goes on behind a failure. -/
theorem transcript_movedDown (lines : Nat) (tokenizer : Tokenizer) (retries : Nat) :
    (tokenizer.movedDown lines).transcript retries =
      ((tokenizer.transcript retries).1.map (Answer.movedDown lines),
        (tokenizer.transcript retries).2.movedDown lines) := by
  induction tokenizer, retries using transcript.induct with
  | case1 tokenizer retries next h =>
      have hmoved := tokenizer.pull_movedDown lines
      rw [h] at hmoved
      rw [transcript_of_end h, transcript_of_end hmoved]
      rfl
  | case2 tokenizer retries token next h _ _ _ _ ih =>
      have hmoved := tokenizer.pull_movedDown lines
      rw [h] at hmoved
      rw [transcript_of_token h, transcript_of_token hmoved, ih]
      rfl
  | case3 tokenizer error next h _ =>
      have hmoved := tokenizer.pull_movedDown lines
      rw [h] at hmoved
      rw [transcript_of_error h, transcript_of_error hmoved]
      rfl
  | case4 tokenizer error next h _ more _ _ _ ih =>
      have hmoved := tokenizer.pull_movedDown lines
      rw [h] at hmoved
      rw [transcript_of_retry h, transcript_of_retry hmoved, ih]
      rfl

end Tokenizer

/-! ## Behind a line feed -/

/-- White space with a line feed behind it is white space. -/
theorem Blanks.lineFeed {blanks : List UInt8} (h : Blanks blanks) :
    Blanks (blanks ++ [lineFeed]) := by
  intro b hb
  obtain hb | hb := List.mem_append.mp hb
  · exact h b hb
  · rw [List.mem_singleton.mp hb]
    rfl

namespace Tokenizer

/-- **What a row of lexemes leaves behind** is a tokenizer at the root.  The induction is on the
lexemes; a number that ends with the row ends in front of the line feed as well. -/
theorem transcript_of_succession {nesting : Nesting} {due : Bool} {document : List UInt8}
    {tokens : List Token} (h : Succession nesting due document tokens) (feed : Feed)
    (p : Position) (current : Option Token) (retries : Nat) :
    transcript ⟨⟨Feed.ofBytes (document ++ [lineFeed]) ++ feed, p⟩, nesting, due, current⟩ retries =
      (tokens.map (fun token => .ok (some token)) ++
          (transcript ⟨⟨feed, p.afterAll (document ++ [lineFeed])⟩, [], false, none⟩ retries).1,
        (transcript ⟨⟨feed, p.afterAll (document ++ [lineFeed])⟩, [], false, none⟩ retries).2) := by
  induction h generalizing p current with
  | @done due blanks hblanks =>
      -- White space and the line feed are one gap, and that gap separates.
      have hcrosses : Nesting.Crosses [] (blanks ++ [lineFeed]) [] := .of_blanks hblanks.lineFeed
      have hdue : due = true → ∀ b ∈ (blanks ++ [lineFeed]).head?, Gap.separates b = true := by
        intro _ b hb
        exact Gap.separates_of_isBlank (hblanks.lineFeed b (List.mem_of_mem_head? hb))
      have hpull := pull_of_gap hcrosses hdue feed p current none
      have hempty : (due && (blanks ++ [lineFeed]).isEmpty) = false := by simp
      rw [hempty] at hpull
      exact transcript_congr hpull retries
  | @step nesting inner after due gap lexeme rest token tokens hgap hreads hends hdue _ ih =>
      have hnumber (hkind : token.kind = .number) :
          NumberEnds lexeme (Feed.ofBytes rest ++ .byte lineFeed :: feed) := by
        have hbehind := hends hkind
        rw [← List.append_nil (Feed.ofBytes rest)] at hbehind
        exact hbehind.exchange (numberEnds_of_byte (hreads.of_number hkind).2.1 (by decide) feed)
      have hpull := pull_of_lexeme hgap hreads hnumber hdue p current
      have hfeed : Feed.ofBytes (gap ++ lexeme ++ rest ++ [lineFeed]) ++ feed =
          Feed.ofBytes (gap ++ lexeme) ++ (Feed.ofBytes rest ++ .byte lineFeed :: feed) := by
        simp
      have hbehind : p.afterAll (gap ++ lexeme ++ rest ++ [lineFeed]) =
          (p.afterAll (gap ++ lexeme)).afterAll (rest ++ [lineFeed]) := by
        rw [List.append_assoc, Position.afterAll_append]
      have hrest := ih (p.afterAll (gap ++ lexeme)) (some token)
      rw [Feed.ofBytes_append, List.append_assoc] at hrest
      rw [hfeed, hbehind, transcript_of_token hpull]
      exact congrArg (fun run => (Except.ok (some token) :: run.1, run.2)) hrest

/-- **One document behind another.**  Behind a complete document and a line feed everything is
read as if it stood alone: the tokens of the document come first, and then each token of what
follows, its end or its failures, with their causes and columns.  Lines are counted on. -/
theorem transcript_lineFeed {document : List UInt8} {tokens : List Token}
    (h : (ofBytes document).Delivers tokens) (other : List UInt8) (retries : Nat) :
    (ofBytes (document ++ lineFeed :: other)).transcript retries =
      (tokens.map (fun token => .ok (some token)) ++
          ((ofBytes other).transcript retries).1.map
            (Answer.movedDown (document.count lineFeed + 1)),
        ((ofBytes other).transcript retries).2.movedDown (document.count lineFeed + 1)) := by
  have hbehind := transcript_of_succession (delivers_ofBytes_iff.mp h) (Feed.ofBytes other)
    Position.start none retries
  have hmoved := (ofBytes other).transcript_movedDown (document.count lineFeed + 1) retries
  have hfeed : Feed.ofBytes (document ++ lineFeed :: other) =
      Feed.ofBytes (document ++ [lineFeed]) ++ Feed.ofBytes other := by simp
  rw [Position.afterAll_lineFeed] at hbehind
  show transcript ⟨⟨Feed.ofBytes (document ++ lineFeed :: other), Position.start⟩, [], false, none⟩
    retries = _
  rw [hfeed, hbehind]
  exact congrArg
    (fun run => (tokens.map (fun token => Except.ok (some token)) ++ run.1, run.2)) hmoved

/-- Behind `[]`, a line feed, `0` and a line feed the malformed `2x` is read as if it stood alone:
a number, and then a failure in its second column, but on the third line. -/
theorem transcript_lineFeed_malformed :
    ((ofBytes [0x5b, 0x5d, 0x0a, 0x30, 0x0a, 0x32, 0x78]).transcript 0).1 =
      [.ok (some ⟨.startOf .array, none, 0⟩), .ok (some ⟨.endOf .array, none, 0⟩),
        .ok (some ⟨.number, some "0", 0⟩), .ok (some ⟨.number, some "2", 0⟩),
        .error (.malformed ⟨3, 2⟩ (.unexpected 0x78 .separator))] := by
  have hdelivers : (ofBytes [0x5b, 0x5d, 0x0a, 0x30]).Delivers
      [⟨.startOf .array, none, 0⟩, ⟨.endOf .array, none, 0⟩, ⟨.number, some "0", 0⟩] :=
    delivers_cons_iff.mpr ⟨_, rfl, delivers_cons_iff.mpr ⟨_, rfl, delivers_cons_iff.mpr
      ⟨_, rfl, delivers_nil_iff.mpr ⟨_, rfl⟩⟩⟩⟩
  have hnumber : (ofBytes [0x32, 0x78]).pull =
      (.ok (some ⟨.number, some "2", 0⟩),
        ⟨⟨[.byte 0x78], ⟨1, 2⟩⟩, [], true, some ⟨.number, some "2", 0⟩⟩) := rfl
  have hother : ((ofBytes [0x32, 0x78]).transcript 0).1 =
      [.ok (some ⟨.number, some "2", 0⟩),
        .error (.malformed ⟨1, 2⟩ (.unexpected 0x78 .separator))] := by
    rw [transcript_of_token hnumber, transcript_of_error rfl]
    rfl
  have hrun := transcript_lineFeed hdelivers [0x32, 0x78] 0
  rw [hother] at hrun
  exact congrArg Prod.fst hrun

end Tokenizer
end RequiredKeys
