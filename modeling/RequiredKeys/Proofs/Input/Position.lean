import RequiredKeys.Proofs.Input.Scanning
import Mathlib.Data.List.DropRight
import Mathlib.Data.List.Induction

/-!
# Positions and what has been read

A position is a function of the bytes that have been read since the document began: its line counts
their line feeds, its column the bytes behind the last of these.  Nothing else moves it, and this
module says so for one scan.

* `Cursor.Advances` puts the two halves of a cursor together: what is gone from the feed is what
  the position has moved over.  Every scan advances its cursor (`Scanner.exists_advances_run`).
* `StreamError.SeenAt` is what an error says of the cursor that it leaves: it is reported there, and
  an end of the input is reported only where the input has ended.
* `Scanner.StopsBefore` is the byte that a scan looks at without taking it.
-/

namespace RequiredKeys

open Ascii

/-- The bytes behind the last line feed. -/
def lastLine (bytes : List UInt8) : List UInt8 :=
  bytes.rtakeWhile (· != lineFeed)

theorem lastLine_concat (bytes : List UInt8) (b : UInt8) :
    lastLine (bytes ++ [b]) = if b = lineFeed then [] else lastLine bytes ++ [b] := by
  unfold lastLine
  by_cases hb : b = lineFeed
  · rw [if_pos hb, List.rtakeWhile_concat_neg _ _ _ (by simp [hb])]
  · rw [if_neg hb, List.rtakeWhile_concat_pos _ _ _ (by simp [hb])]

namespace Position

/-- Every line feed begins a line. -/
theorem line_afterAll (p : Position) (bytes : List UInt8) :
    (p.afterAll bytes).line = p.line + bytes.count lineFeed := by
  induction bytes generalizing p with
  | nil => rfl
  | cons b bytes ih =>
      rw [afterAll_cons, ih, List.count_cons, after]
      by_cases hb : b = lineFeed
      · simp [hb]
        omega
      · simp [hb]

/-- Columns count what stands on the last line. -/
theorem column_afterAll_start (bytes : List UInt8) :
    (start.afterAll bytes).column = 1 + (lastLine bytes).length := by
  induction bytes using List.reverseRecOn with
  | nil => rfl
  | append_singleton bytes b ih =>
      rw [afterAll_append, afterAll_cons, afterAll_nil, after, lastLine_concat]
      by_cases hb : b = lineFeed
      · rw [if_pos hb, if_pos hb]
        rfl
      · rw [if_neg hb, if_neg hb, List.length_append]
        show (start.afterAll bytes).column + 1 = _
        rw [ih, List.length_singleton, Nat.add_assoc]

end Position

/-! ## What stands at a position -/

/-- The byte `b` stands at the position: of the lines that the line feeds of the document separate,
and of the bytes of that line, the position counts those in front, and one more. -/
def StandsAt (document : List UInt8) (b : UInt8) (p : Position) : Prop :=
  ∃ line column text, p = ⟨line + 1, column + 1⟩ ∧
    (document.splitOn lineFeed)[line]? = some text ∧ text[column]? = some b

/-- A byte in front belongs to the last line if there is no other line. -/
theorem lastLine_cons (b : UInt8) (bytes : List UInt8) :
    lastLine (b :: bytes) =
      if b ≠ lineFeed ∧ bytes.count lineFeed = 0 then b :: lastLine bytes else lastLine bytes := by
  induction bytes using List.reverseRecOn with
  | nil =>
      have hconcat := lastLine_concat [] b
      rw [List.nil_append] at hconcat
      rw [hconcat]
      by_cases hb : b = lineFeed
      · simp [hb, lastLine]
      · simp [hb, lastLine]
  | append_singleton bytes c ih =>
      rw [← List.cons_append, lastLine_concat, lastLine_concat, ih, List.count_append]
      by_cases hc : c = lineFeed
      · simp [hc]
      · by_cases hfirst : b ≠ lineFeed ∧ bytes.count lineFeed = 0
        · simp [hc, hfirst]
        · simp [hc, hfirst]

/-- The line that some bytes break off goes on up to the next line feed. -/
theorem getElem?_splitOn_append (bytes tail : List UInt8) :
    ((bytes ++ tail).splitOn lineFeed)[bytes.count lineFeed]? =
      some (lastLine bytes ++ tail.takeWhile (· != lineFeed)) := by
  induction bytes with
  | nil =>
      show (tail.splitOn lineFeed)[0]? = some (tail.takeWhile (· != lineFeed))
      induction tail with
      | nil => rfl
      | cons b tail ih =>
          rw [List.splitOn_eq_splitOnP] at ih ⊢
          rw [List.splitOnP_cons_eq_if_modifyHead]
          by_cases hb : b = lineFeed
          · simp [hb]
          · simp [hb, List.getElem?_modifyHead, ih]
  | cons b bytes ih =>
      rw [List.splitOn_eq_splitOnP] at ih ⊢
      rw [List.cons_append, List.splitOnP_cons_eq_if_modifyHead, lastLine_cons]
      by_cases hb : b = lineFeed
      · simp [hb, ih]
      · by_cases hcount : bytes.count lineFeed = 0
        · simp_all [List.getElem?_modifyHead]
        · simp_all [List.getElem?_modifyHead]

/-- **The position behind some bytes is where the next byte stands**, if it is no line feed. -/
theorem standsAt_afterAll (bytes : List UInt8) {b : UInt8} (hb : b ≠ lineFeed)
    (rest : List UInt8) :
    StandsAt (bytes ++ b :: rest) b (Position.start.afterAll bytes) := by
  have hline : (Position.start.afterAll bytes).line = 1 + bytes.count lineFeed :=
    Position.line_afterAll Position.start bytes
  have hcolumn := Position.column_afterAll_start bytes
  refine ⟨bytes.count lineFeed, (lastLine bytes).length, _, ?_,
    getElem?_splitOn_append bytes (b :: rest), ?_⟩
  · rw [Nat.add_comm _ 1, Nat.add_comm _ 1, ← hline, ← hcolumn]
  · have htail : (b :: rest).takeWhile (· != lineFeed) =
        b :: rest.takeWhile (· != lineFeed) := by
      simp [hb]
    rw [htail, List.getElem?_append_right (Nat.le_refl _), Nat.sub_self]
    rfl

/-- `behind` is `before` moved over the bytes `taken`. -/
structure Cursor.Advances (before behind : Cursor) (taken : List UInt8) : Prop where
  bytes : before.feed.bytes = taken ++ behind.feed.bytes
  position : behind.position = before.position.afterAll taken

namespace Cursor.Advances

theorem refl (cursor : Cursor) : cursor.Advances cursor [] :=
  ⟨rfl, rfl⟩

theorem trans {before mid behind : Cursor} {first second : List UInt8}
    (hfirst : before.Advances mid first) (hsecond : mid.Advances behind second) :
    before.Advances behind (first ++ second) where
  bytes := by rw [hfirst.bytes, hsecond.bytes, List.append_assoc]
  position := by rw [hsecond.position, hfirst.position, Position.afterAll_append]

end Cursor.Advances

/-- An error is reported where the cursor stands, and as an end of the input only if nothing is
left to read. -/
structure StreamError.SeenAt (error : StreamError) (cursor : Cursor) : Prop where
  position : ∀ q, error.position? = some q → q = cursor.position
  ended : ∀ q, error = .truncated q → cursor.feed = []

theorem StreamError.seenAt_malformed (cursor : Cursor) (cause : Malformation) :
    (StreamError.malformed cursor.position cause).SeenAt cursor where
  position q hq := (Option.some.inj hq).symm
  ended q h := by simp at h

/-- The result with which a verdict ends a piece. -/
def Verdict.result? {σ α : Type} : Verdict σ α → Option (Except Refusal α)
  | take _ => none
  | finish _ result => some result
  | leave _ result => some result

namespace Scanner

variable {σ α : Type} {scanner : Scanner σ α}

/-- No byte makes the scanner report the end of the input. -/
def BlamesEnd (scanner : Scanner σ α) : Prop :=
  ∀ state b, (scanner.onByte state b).result? ≠ some (.error .truncated)

/-- A scan looks at the byte `b` and does not take it: its piece ends in front of it. -/
def StopsBefore (scanner : Scanner σ α) (state : σ) (cursor : Cursor) (b : UInt8) : Prop :=
  ∃ taken mid last result rest, cursor.feed = Feed.ofBytes taken ++ .byte b :: rest ∧
    scanner.afterAll? state taken = some mid ∧ scanner.onByte mid b = .leave last result

/-- **A scan moves its cursor over what it reads**, and a failed read does not move it. -/
theorem exists_advances_run (scanner : Scanner σ α) (state : σ) (cursor : Cursor) :
    ∃ taken, cursor.Advances (scanner.run state cursor).cursor taken := by
  obtain ⟨feed, p⟩ := cursor
  obtain ⟨taken, rest, last, result, rfl, hcompletes⟩ |
    ⟨taken, reason, rest, last, rfl, htaken⟩ := scanner.completes_or_interrupted state feed
  · rw [run, runFrom_of_completes hcompletes]
    exact ⟨taken, by simp, rfl⟩
  · rw [run, runFrom_of_interrupted htaken]
    exact ⟨taken, by simp, rfl⟩

theorem located_eq_error {p : Position} {result : Except Refusal α} {error : StreamError}
    (h : located p result = .error error) :
    ∃ refusal, result = .error refusal ∧ error = refusal.seenAt p := by
  cases result with
  | ok a => simp at h
  | error refusal => exact ⟨refusal, rfl, (Except.error.inj h).symm⟩

/-- What refuses an input is seen where the scan stops. -/
theorem seenAt_run (hblame : scanner.BlamesEnd) {state : σ} {cursor : Cursor}
    {error : StreamError} (h : (scanner.run state cursor).result = .error error) :
    error.SeenAt (scanner.run state cursor).cursor := by
  obtain ⟨feed, p⟩ := cursor
  obtain ⟨taken, rest, last, result, rfl, hcompletes⟩ |
    ⟨taken, reason, rest, last, rfl, htaken⟩ := scanner.completes_or_interrupted state feed
  · rw [run, runFrom_of_completes hcompletes] at h ⊢
    obtain ⟨refusal, rfl, rfl⟩ := located_eq_error h
    cases refusal with
    | malformed cause => exact StreamError.seenAt_malformed ⟨rest, p.afterAll taken⟩ cause
    | truncated =>
        refine ⟨fun q hq => (Option.some.inj hq).symm, fun q _ => ?_⟩
        -- A byte would not have been the reason, so there was none.
        rcases completes_iff.mp hcompletes with ⟨-, hrest, -⟩ | ⟨before, b, mid, -, -, hbyte⟩ |
          ⟨mid, b, more, -, -, hbyte⟩
        · exact hrest
        · exact absurd (congrArg Verdict.result? hbyte) (hblame mid b)
        · exact absurd (congrArg Verdict.result? hbyte) (hblame mid b)
  · rw [run, runFrom_of_interrupted htaken] at h ⊢
    obtain rfl := Except.error.inj h
    exact ⟨by simp [StreamError.position?], by simp⟩

/-- A scan that finds the text malformed completes its piece with that. -/
theorem exists_completes_of_malformed {state : σ} {cursor : Cursor} {q : Position}
    {cause : Malformation}
    (h : (scanner.run state cursor).result = .error (.malformed q cause)) :
    ∃ taken last, cursor.Advances (scanner.run state cursor).cursor taken ∧
      scanner.Completes state taken (scanner.run state cursor).cursor.feed last
        (.error (.malformed cause)) := by
  obtain ⟨feed, p⟩ := cursor
  obtain ⟨taken, rest, last, result, rfl, hcompletes⟩ |
    ⟨taken, reason, rest, last, rfl, htaken⟩ := scanner.completes_or_interrupted state feed
  · rw [run, runFrom_of_completes hcompletes] at h ⊢
    obtain ⟨refusal, rfl, hrefusal⟩ := located_eq_error h
    have hmalformed : refusal = .malformed cause := by
      cases refusal with
      | malformed other =>
          obtain ⟨-, rfl⟩ : q = p.afterAll taken ∧ cause = other := by
            simpa [Refusal.seenAt] using hrefusal
          rfl
      | truncated => simp [Refusal.seenAt] at hrefusal
    subst hmalformed
    exact ⟨taken, last, ⟨by simp, rfl⟩, hcompletes⟩
  · rw [run, runFrom_of_interrupted htaken] at h
    simp at h

/-- The byte that a scan stops in front of is the next one still. -/
theorem StopsBefore.exists_feed_run {state : σ} {cursor : Cursor} {b : UInt8}
    (h : scanner.StopsBefore state cursor b) :
    ∃ rest, (scanner.run state cursor).cursor.feed = .byte b :: rest := by
  obtain ⟨feed, p⟩ := cursor
  obtain ⟨taken, mid, last, result, rest, rfl, htaken, hbyte⟩ := h
  rw [run, runFrom_of_completes (.leave htaken hbyte)]
  exact ⟨rest, rfl⟩

end Scanner
end RequiredKeys
