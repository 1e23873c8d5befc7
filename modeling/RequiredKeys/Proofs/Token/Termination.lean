import RequiredKeys.Proofs.Token.Position
import RequiredKeys.Proofs.Token.Retry

/-!
# Pulls come to an end

Three loops move through a document: the one of a scan, the one of a caller that pulls again and
again, and the one of a run.  This module is about the first two.

* `Scanner.EndsAfter` unrolls the loop of a scan.  A scan that goes on has taken a byte, so the
  deliveries it looks at are those it uses up and one more (`Scanner.exists_endsAfter`).  A pull
  is two scans at most (`Tokenizer.exists_endsAfter`).
* An answer that does not conclude the input has cost something: a token costs a byte
  (`Tokenizer.exists_taken_of_token`), and a failed read the failure
  (`Tokenizer.exists_taken_of_unreadable`).  So the deliveries that are left are the measure of
  the calls to come (`Tokenizer.exists_conclusion`).

The measure counts bytes and failures together.  A failed pull may have taken bytes of a token
that it drops, and these are gone for the pulls behind it; none of them comes back.
-/

namespace RequiredKeys

/-! ## One scan -/

namespace Scanner

variable {σ α : Type} {scanner : Scanner σ α}

/-- `scanner.EndsAfter state feed looks`: from `state` the scan of `feed` is over with the given
number of looks, each at one delivery or at the end of the input. -/
inductive EndsAfter (scanner : Scanner σ α) : σ → Feed → Nat → Prop
  | atEnd {state : σ} : EndsAfter scanner state [] 1
  | failure {state : σ} {reason : String} {rest : Feed} :
      EndsAfter scanner state (.failure reason :: rest) 1
  | finish {state last : σ} {b : UInt8} {rest : Feed} {result : Except Refusal α}
      (hbyte : scanner.onByte state b = .finish last result) :
      EndsAfter scanner state (.byte b :: rest) 1
  | leave {state last : σ} {b : UInt8} {rest : Feed} {result : Except Refusal α}
      (hbyte : scanner.onByte state b = .leave last result) :
      EndsAfter scanner state (.byte b :: rest) 1
  | take {state next : σ} {b : UInt8} {rest : Feed} {looks : Nat}
      (hbyte : scanner.onByte state b = .take next) (h : EndsAfter scanner next rest looks) :
      EndsAfter scanner state (.byte b :: rest) (looks + 1)

/-- **Every scan ends**, and of what it looks at it leaves one delivery at most. -/
theorem exists_endsAfter (scanner : Scanner σ α) (state : σ) (feed : Feed) (p : Position) :
    ∃ looks, scanner.EndsAfter state feed looks ∧
      looks + (scanner.runFrom state feed p).cursor.feed.length ≤ feed.length + 1 := by
  induction feed generalizing state p with
  | nil => exact ⟨1, .atEnd, Nat.le_refl 1⟩
  | cons delivery feed ih =>
      cases delivery with
      | failure reason =>
          refine ⟨1, .failure, ?_⟩
          rw [runFrom_failure, List.length_cons]
          show 1 + feed.length ≤ _
          omega
      | byte b =>
          cases hbyte : scanner.onByte state b with
          | take next =>
              obtain ⟨looks, hends, hlength⟩ := ih next (p.after b)
              refine ⟨looks + 1, .take hbyte hends, ?_⟩
              rw [runFrom_take hbyte, List.length_cons]
              omega
          | finish last result =>
              refine ⟨1, .finish hbyte, ?_⟩
              rw [runFrom_finish hbyte, List.length_cons]
              show 1 + feed.length ≤ _
              omega
          | leave last result =>
              refine ⟨1, .leave hbyte, ?_⟩
              rw [runFrom_leave hbyte, List.length_cons]
              show 1 + (feed.length + 1) ≤ _
              omega

theorem exists_endsAfter_run (scanner : Scanner σ α) (state : σ) (cursor : Cursor) :
    ∃ looks, scanner.EndsAfter state cursor.feed looks ∧
      looks + (scanner.run state cursor).cursor.feed.length ≤ cursor.feed.length + 1 :=
  scanner.exists_endsAfter state cursor.feed cursor.position

end Scanner

/-! ## One pull -/

namespace TokenStart

/-- With how many looks the scan of a token is over.  Brackets are complete without a scan. -/
def EndsAfter (start : TokenStart) (feed : Feed) (looks : Nat) : Prop :=
  match start with
  | enter _ => looks = 0
  | exit => looks = 0
  | key => PartialQuoted.scanner.EndsAfter {} feed looks
  | string => PartialQuoted.scanner.EndsAfter {} feed looks
  | number => PartialNumber.scanner.EndsAfter {} feed looks
  | literal word => word.scanner.EndsAfter word.bytes feed looks

theorem exists_endsAfter (start : TokenStart) (nesting : Nesting) (cursor : Cursor) :
    ∃ looks, start.EndsAfter cursor.feed looks ∧
      looks + (start.read nesting cursor).cursor.feed.length ≤ cursor.feed.length + 1 := by
  -- A token without a scan leaves the cursor where it is.
  have hbracket {start : TokenStart} (hlooks : start.EndsAfter cursor.feed 0) :
      ∃ looks, start.EndsAfter cursor.feed looks ∧
        looks + (start.read nesting cursor).cursor.feed.length ≤ cursor.feed.length + 1 := by
    have hlength := start.length_feed_read_le nesting cursor
    exact ⟨0, hlooks, by omega⟩
  cases start with
  | enter container => exact hbracket rfl
  | exit => exact hbracket rfl
  | key =>
      have hcursor : (key.read nesting cursor).cursor =
          (PartialQuoted.scanner.run {} cursor).cursor := by
        simp only [read]
        split <;> rfl
      rw [hcursor]
      exact PartialQuoted.scanner.exists_endsAfter_run {} cursor
  | string => exact PartialQuoted.scanner.exists_endsAfter_run {} cursor
  | number => exact PartialNumber.scanner.exists_endsAfter_run {} cursor
  | literal word => cases word <;> exact Scanner.exists_endsAfter_run _ _ cursor

end TokenStart

namespace Tokenizer

/-- With how many looks a pull is over: the gap ends it, or the token behind the gap. -/
inductive EndsAfter (tokenizer : Tokenizer) : Nat → Prop
  | gap {looks : Nat}
      (hgap : Gap.scanner.EndsAfter ⟨tokenizer.nesting, tokenizer.separatorDue⟩
        tokenizer.cursor.feed looks)
      (hnone : ∀ start, tokenizer.crossGap.result ≠ .ok (some start)) : EndsAfter tokenizer looks
  | token {looks more : Nat} {start : TokenStart}
      (hgap : Gap.scanner.EndsAfter ⟨tokenizer.nesting, tokenizer.separatorDue⟩
        tokenizer.cursor.feed looks)
      (hstart : tokenizer.crossGap.result = .ok (some start))
      (htoken : start.EndsAfter tokenizer.crossGap.cursor.feed more) :
      EndsAfter tokenizer (looks + more)

/-- **Every pull returns.**  Each of its two scans may leave the last thing it looks at. -/
theorem exists_endsAfter (tokenizer : Tokenizer) :
    ∃ looks, tokenizer.EndsAfter looks ∧
      looks + tokenizer.pull.2.cursor.feed.length ≤ tokenizer.cursor.feed.length + 2 := by
  obtain ⟨looks, hgap, hlooks⟩ : ∃ looks,
      Gap.scanner.EndsAfter ⟨tokenizer.nesting, tokenizer.separatorDue⟩
          tokenizer.cursor.feed looks ∧
        looks + tokenizer.crossGap.cursor.feed.length ≤ tokenizer.cursor.feed.length + 1 :=
    Gap.scanner.exists_endsAfter_run _ tokenizer.cursor
  rcases tokenizer.pull_cases with ⟨hnone, hcursor, -⟩ | ⟨start, read, hstart, rfl, hcursor, -⟩
  · refine ⟨looks, .gap hgap hnone, ?_⟩
    rw [hcursor]
    omega
  · obtain ⟨more, htoken, hmore⟩ :=
      start.exists_endsAfter tokenizer.crossGap.state.nesting tokenizer.crossGap.cursor
    refine ⟨looks + more, .token hgap hstart htoken, ?_⟩
    rw [hcursor]
    omega

/-- **A token costs bytes**, and no read has failed in front of it or inside. -/
theorem exists_taken_of_token {tokenizer : Tokenizer} {token : Token}
    (h : tokenizer.pull.1 = .ok (some token)) :
    ∃ taken, taken ≠ [] ∧
      tokenizer.cursor.feed = Feed.ofBytes taken ++ tokenizer.pull.2.cursor.feed := by
  have hpull : tokenizer.pull = (.ok (some token), tokenizer.pull.2) := Prod.ext h rfl
  obtain ⟨gap, lexeme, rest, inner, after, hfeed, -, hreads, -, -, hnext⟩ :=
    pull_eq_token_iff.mp hpull
  refine ⟨gap ++ lexeme, List.append_ne_nil_of_right_ne_nil gap hreads.ne_nil, ?_⟩
  rw [hnext]
  exact hfeed

/-- **A failed read costs the failure** that it tells, the first one that was left. -/
theorem exists_taken_of_unreadable {tokenizer : Tokenizer} {reason : String}
    (h : tokenizer.pull.1 = .error (.unreadable reason)) :
    ∃ taken, tokenizer.cursor.feed =
      Feed.ofBytes taken ++ .failure reason :: tokenizer.pull.2.cursor.feed :=
  pull_eq_unreadable (Prod.ext h rfl)

/-- What holds of a single pull. -/
structure Spends (tokenizer : Tokenizer) : Prop where
  /-- It returns. -/
  returns : ∃ looks, looks ≤ tokenizer.cursor.feed.length + 2 ∧ tokenizer.EndsAfter looks
  /-- If it returns a token, it has consumed a byte at least. -/
  token : ∀ token, tokenizer.pull.1 = .ok (some token) →
    ∃ taken, taken ≠ [] ∧
      tokenizer.cursor.feed = Feed.ofBytes taken ++ tokenizer.pull.2.cursor.feed
  /-- If it returns a failed read, it has used up this failure and no other one. -/
  unreadable : ∀ reason, tokenizer.pull.1 = .error (.unreadable reason) →
    ∃ taken, tokenizer.cursor.feed =
      Feed.ofBytes taken ++ .failure reason :: tokenizer.pull.2.cursor.feed

theorem spends (tokenizer : Tokenizer) : tokenizer.Spends where
  returns := by
    obtain ⟨looks, hends, hlooks⟩ := tokenizer.exists_endsAfter
    exact ⟨looks, by omega, hends⟩
  token _ h := exists_taken_of_token h
  unreadable _ h := exists_taken_of_unreadable h

/-! ## Pulling again and again -/

/-- Whether an answer is the last one for a caller that pulls again behind each token and each
failed read. -/
def concludes : Answer → Bool
  | .ok none => true
  | .ok (some _) => false
  | .error (.unreadable _) => false
  | .error (.malformed _ _) => true
  | .error (.truncated _) => true

/-- An answer behind which a caller goes on has used up a delivery. -/
theorem length_feed_lt_of_concludes {tokenizer : Tokenizer}
    (h : concludes tokenizer.pull.1 = false) :
    tokenizer.pull.2.cursor.feed.length < tokenizer.cursor.feed.length := by
  cases hanswer : tokenizer.pull.1 with
  | ok found =>
      cases found with
      | none => simp [hanswer, concludes] at h
      | some token => exact length_feed_pull_lt hanswer
  | error error =>
      cases error with
      | unreadable reason => exact length_feed_lt_of_unreadable (Prod.ext hanswer rfl)
      | malformed q cause => simp [hanswer, concludes] at h
      | truncated q => simp [hanswer, concludes] at h

/-- **A caller that goes on comes to the end**, or to an error of the input, with no more calls
than there are deliveries, and one more. -/
theorem exists_conclusion (tokenizer : Tokenizer) :
    ∃ calls, calls ≤ tokenizer.cursor.feed.length ∧
      concludes (tokenizer.afterPulls calls).pull.1 = true ∧
      ∀ earlier, earlier < calls → concludes (tokenizer.afterPulls earlier).pull.1 = false := by
  induction hlength : tokenizer.cursor.feed.length using Nat.strong_induction_on
    generalizing tokenizer with
  | _ length ih =>
      by_cases hanswer : concludes tokenizer.pull.1 = true
      · exact ⟨0, Nat.zero_le length, hanswer, by simp⟩
      · have hgoes : concludes tokenizer.pull.1 = false := by simpa using hanswer
        have hshorter : tokenizer.pull.2.cursor.feed.length < length := by
          rw [← hlength]
          exact length_feed_lt_of_concludes hgoes
        obtain ⟨calls, hcalls, hconcludes, hearlier⟩ := ih _ hshorter tokenizer.pull.2 rfl
        refine ⟨calls + 1, by omega, hconcludes, ?_⟩
        intro earlier hlt
        cases earlier with
        | zero => exact hgoes
        | succ earlier => exact hearlier earlier (Nat.lt_of_succ_lt_succ hlt)

end Tokenizer
end RequiredKeys
