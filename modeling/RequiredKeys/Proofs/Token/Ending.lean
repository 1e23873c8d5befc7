import RequiredKeys.Proofs.Requirement.Verdict
import RequiredKeys.Proofs.Token.Position
import RequiredKeys.Proofs.Token.Truncation

/-!
# Behind the end of the input

A tokenizer can meet the end of its input in many places: between two tokens, where a separator is
due, or in the middle of a string, an escape or a word.  Whatever it was about to do there, what is
left of it is the same: nothing to read, a position, and the containers that are open.  A pull moves
none of these any more, so all later pulls answer alike.

* `Tokenizer.pull_of_isOver` is one pull of a tokenizer with nothing to read, and
  `Tokenizer.afterPulls_of_isOver` what any number of them keep.
* `Tokenizer.isOver_of_end` and `Tokenizer.isOver_of_truncated` say that both answers by which a
  pull tells the end leave such a tokenizer.

The half-read token of a pull that fails is dropped.  So where no container is open, a document that
breaks off inside a token is reported once, and the pull behind finds a regular end.
-/

namespace RequiredKeys
namespace Tokenizer

/-- Nothing is left to read. -/
def IsOver (tokenizer : Tokenizer) : Prop :=
  tokenizer.cursor.feed = []

variable {tokenizer : Tokenizer}

/-- **A pull with nothing to read** answers by what is open, and moves nothing. -/
theorem pull_of_isOver (h : tokenizer.IsOver) :
    tokenizer.pull =
      (endAnswer tokenizer.nesting.containers tokenizer.position,
        { tokenizer with separatorDue := false, current := none }) := by
  obtain ⟨⟨feed, p⟩, nesting, due, current⟩ := tokenizer
  have hfeed : feed = [] := h
  subst hfeed
  cases nesting with
  | nil => rfl
  | cons frame outer => rfl

/-- Any number of pulls with nothing to read leaves the cursor and the containers alone. -/
theorem afterPulls_of_isOver (h : tokenizer.IsOver) (pulls : Nat) :
    (tokenizer.afterPulls pulls).cursor = tokenizer.cursor ∧
      (tokenizer.afterPulls pulls).nesting = tokenizer.nesting := by
  induction pulls with
  | zero => exact ⟨rfl, rfl⟩
  | succ pulls ih =>
      have hover : (tokenizer.afterPulls pulls).IsOver := by
        show (tokenizer.afterPulls pulls).cursor.feed = []
        rw [ih.1]
        exact h
      rw [afterPulls_succ, pull_of_isOver hover]
      exact ih

namespace IsOver

/-- Nothing comes back. -/
theorem afterPulls (h : tokenizer.IsOver) (pulls : Nat) : (tokenizer.afterPulls pulls).IsOver := by
  show (tokenizer.afterPulls pulls).cursor.feed = []
  rw [(afterPulls_of_isOver h pulls).1]
  exact h

theorem position_afterPulls (h : tokenizer.IsOver) (pulls : Nat) :
    (tokenizer.afterPulls pulls).position = tokenizer.position :=
  congrArg Cursor.position (afterPulls_of_isOver h pulls).1

theorem depth_afterPulls (h : tokenizer.IsOver) (pulls : Nat) :
    (tokenizer.afterPulls pulls).depth = tokenizer.depth :=
  congrArg List.length (afterPulls_of_isOver h pulls).2

/-- The pulls to come are all like the first one. -/
theorem answer_afterPulls (h : tokenizer.IsOver) (pulls : Nat) :
    (tokenizer.afterPulls pulls).pull.1 =
      endAnswer tokenizer.nesting.containers tokenizer.position := by
  rw [pull_of_isOver (h.afterPulls pulls), (afterPulls_of_isOver h pulls).2,
    h.position_afterPulls pulls]

end IsOver

/-- A pull that finds the end has nothing left to read, and no container is open. -/
theorem isOver_of_end (h : tokenizer.pull.1 = .ok none) :
    tokenizer.pull.2.IsOver ∧ tokenizer.pull.2.nesting = [] := by
  have hpull : tokenizer.pull = (.ok none, tokenizer.pull.2) := Prod.ext h rfl
  obtain ⟨blanks, -, -, -, hnext⟩ := pull_eq_end_iff.mp hpull
  rw [hnext]
  exact ⟨rfl, rfl⟩

/-- A pull that misses the rest of the input has nothing left to read, and stands where it says. -/
theorem isOver_of_truncated {q : Position} (h : tokenizer.pull.1 = .error (.truncated q)) :
    tokenizer.pull.2.IsOver ∧ tokenizer.pull.2.position = q := by
  have hseen : (StreamError.truncated q).SeenAt tokenizer.pull.2.cursor := seenAt_pull h
  exact ⟨hseen.ended q rfl, (hseen.position q rfl).symm⟩

/-- What a tokenizer with nothing to read answers, told by the number of open containers. -/
theorem endAnswer_eq (tokenizer : Tokenizer) :
    endAnswer tokenizer.nesting.containers tokenizer.position =
      if tokenizer.depth = 0 then .ok none else .error (.truncated tokenizer.position) := by
  obtain ⟨⟨feed, p⟩, nesting, due, current⟩ := tokenizer
  cases nesting with
  | nil => rfl
  | cons frame outer => rfl

/-- A run that something keeps going finds the end at once, and is itself one more pull. -/
theorem run_of_isOver (h : tokenizer.IsOver) (hnesting : tokenizer.nesting = [])
    {outstanding : Outstanding} {options : RunOptions}
    (hgoes : (options.stopWhenSatisfied && outstanding.isSatisfied) = false) :
    (outstanding.run options tokenizer).result = .ok ⟨outstanding, 0, true⟩ ∧
      (outstanding.run options tokenizer).source = tokenizer.pull.2 := by
  have hanswer : tokenizer.pull.1 = .ok none := by
    rw [pull_of_isOver h, hnesting]
    rfl
  have hnext : TokenSource.next tokenizer = (.ok none, tokenizer.pull.2) := by
    show tokenizer.next = _
    rw [next_eq, hanswer]
    rfl
  have hrun : outstanding.run options tokenizer =
      Progress.conclude { outstanding := outstanding } tokenizer.pull.2 true :=
    Progress.run_of_end hgoes hnext
  rw [hrun]
  exact ⟨rfl, rfl⟩

/-- What holds of all that is done with a tokenizer behind a pull that tells the end. -/
structure AbsorbsEnd (tokenizer : Tokenizer) : Prop where
  /-- Behind the end every pull finds the end again, and moves nothing. -/
  ended : tokenizer.pull.1 = .ok none → ∀ later,
    (tokenizer.pull.2.afterPulls later).pull.1 = .ok none ∧
      (tokenizer.pull.2.afterPulls later).position = tokenizer.pull.2.position ∧
      (tokenizer.pull.2.afterPulls later).depth = tokenizer.pull.2.depth
  /-- Behind the end a run that misses something pulls no token and keeps what it misses.  It does
  to the tokenizer what one pull does. -/
  run : tokenizer.pull.1 = .ok none → ∀ later (outstanding : Outstanding) (options : RunOptions),
    outstanding.isSatisfied = false →
      (outstanding.run options (tokenizer.pull.2.afterPulls later)).result =
          .ok ⟨outstanding, 0, true⟩ ∧
        (outstanding.run options (tokenizer.pull.2.afterPulls later)).source =
          tokenizer.pull.2.afterPulls (later + 1)
  /-- Behind an input that has ended too early every pull says so again, at the same place, as long
  as a container is open; else every pull finds the end. -/
  truncated : ∀ q, tokenizer.pull.1 = .error (.truncated q) → ∀ later,
    (tokenizer.pull.2.afterPulls later).pull.1 =
        (if tokenizer.pull.2.depth = 0 then .ok none else .error (.truncated q)) ∧
      (tokenizer.pull.2.afterPulls later).position = q ∧
      (tokenizer.pull.2.afterPulls later).depth = tokenizer.pull.2.depth

/-- **The end of the input is absorbing**, for every tokenizer: whatever the reader has delivered
and will deliver, and whatever has failed before. -/
theorem absorbsEnd (tokenizer : Tokenizer) : tokenizer.AbsorbsEnd := by
  constructor
  case ended =>
    intro hend later
    obtain ⟨hover, hnesting⟩ := isOver_of_end hend
    refine ⟨?_, hover.position_afterPulls later, hover.depth_afterPulls later⟩
    rw [hover.answer_afterPulls, hnesting]
    rfl
  case run =>
    intro hend later outstanding options hunsatisfied
    obtain ⟨hover, hnesting⟩ := isOver_of_end hend
    obtain ⟨-, hlater⟩ := afterPulls_of_isOver hover later
    rw [afterPulls_succ]
    apply run_of_isOver (hover.afterPulls later) (hlater.trans hnesting)
    rw [hunsatisfied, Bool.and_false]
  case truncated =>
    intro q htruncated later
    obtain ⟨hover, hposition⟩ := isOver_of_truncated htruncated
    refine ⟨?_, (hover.position_afterPulls later).trans hposition, hover.depth_afterPulls later⟩
    rw [hover.answer_afterPulls, endAnswer_eq, hposition]

/-- An escape that breaks off is reported once at the root, and again and again in an array. -/
example : (ofBytes [0x22, 0x5c]).answers 3 = [.error (.truncated ⟨1, 3⟩), .ok none, .ok none] ∧
    (ofBytes [0x5b, 0x22, 0x5c]).answers 3 =
      [.ok (some ⟨.startOf .array, none, 0⟩), .error (.truncated ⟨1, 4⟩),
        .error (.truncated ⟨1, 4⟩)] :=
  ⟨rfl, rfl⟩

end Tokenizer
end RequiredKeys
