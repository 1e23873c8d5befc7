import Mathlib.Algebra.Group.Nat.Defs
import RequiredKeys.Lexeme.Number
import RequiredKeys.Proofs.Input.Position
import RequiredKeys.Proofs.Lexeme.Quoted
import RequiredKeys.Proofs.Lexeme.Word

/-!
# Causes that a lexeme never has

The tables have a cause for an escape that stands for no character.  It is there since not every
number is a character; but a table that asks for it has read four digits, and has told surrogates
apart before it asks, so what is left always is a character.

* `QuotedMode.Bounded` is what the state of a string says of the digits that it has read, and no
  byte can break it.
* `Scanner.Within` says that a scanner keeps such an invariant, and that it has only some causes.
  `Scanner.Within.of_run` carries that through a scan.
* `Malformation.Arises` leaves out the two causes that no pull ever has; the other one of them
  belongs to the nesting.
-/

namespace RequiredKeys

open Ascii

/-- A cause that is not one of the two that never come up. -/
def Malformation.Arises (cause : Malformation) : Prop :=
  cause ≠ .strayClose ∧ cause ≠ .badCodePoint

/-! ## Invariants of scanners -/

section

variable {σ α : Type}

/-- A verdict that keeps to the states in `inv`, and refuses for the causes in `may` only. -/
def Verdict.Within (inv : σ → Prop) (may : Malformation → Prop) : Verdict σ α → Prop
  | .take next => inv next
  | .finish _ (.error (.malformed cause)) => may cause
  | .leave _ (.error (.malformed cause)) => may cause
  | _ => True

/-- A scanner that, started in `inv`, stays there and has only causes in `may`. -/
structure Scanner.Within (scanner : Scanner σ α) (inv : σ → Prop) (may : Malformation → Prop) :
    Prop where
  onByte : ∀ state b, inv state → (scanner.onByte state b).Within inv may
  onEnd : ∀ state cause, scanner.onEnd state = .error (.malformed cause) → may cause

namespace Scanner

variable {scanner : Scanner σ α} {inv : σ → Prop} {may : Malformation → Prop} {state last : σ}

theorem Within.of_afterAll? (h : scanner.Within inv may) {taken : List UInt8} (hstate : inv state)
    (htaken : scanner.afterAll? state taken = some last) : inv last := by
  induction taken generalizing state with
  | nil =>
      obtain rfl : state = last := by simpa using htaken
      exact hstate
  | cons b taken ih =>
      obtain ⟨next, hbyte, htail⟩ := afterAll?_cons_eq_some.mp htaken
      have hnext := h.onByte state b hstate
      rw [hbyte] at hnext
      exact ih hnext htail

theorem Within.of_completes (h : scanner.Within inv may) {taken : List UInt8} {rest : Feed}
    {cause : Malformation} (hstate : inv state)
    (hcompletes : scanner.Completes state taken rest last (.error (.malformed cause))) :
    may cause := by
  rcases completes_iff.mp hcompletes with ⟨-, -, hend⟩ | ⟨before, b, mid, -, hbefore, hbyte⟩ |
    ⟨mid, b, more, hbefore, -, hbyte⟩
  · exact h.onEnd last cause hend
  · have hmid := h.onByte mid b (h.of_afterAll? hstate hbefore)
    rwa [hbyte] at hmid
  · have hmid := h.onByte mid b (h.of_afterAll? hstate hbefore)
    rwa [hbyte] at hmid

/-- **Over every feed** the scanner has only these causes. -/
theorem Within.of_run (h : scanner.Within inv may) (hstate : inv state) {cursor : Cursor}
    {q : Position} {cause : Malformation}
    (hrun : (scanner.run state cursor).result = .error (.malformed q cause)) : may cause := by
  obtain ⟨taken, last, -, hcompletes⟩ := exists_completes_of_malformed hrun
  exact h.of_completes hstate hcompletes

end Scanner
end

/-! ## Strings -/

theorem hexValue?_lt {b : UInt8} {digit : Nat} (h : hexValue? b = some digit) : digit < 16 := by
  have hvalue := hexValue?_eq_some_iff.mp h
  omega

theorem exists_charOfCodePoint? {code : Nat} (h : code.isValidChar) :
    ∃ c, charOfCodePoint? code = some c :=
  ⟨_, dif_pos h⟩

/-- What the state of a string says of the digits that it has read. -/
def QuotedMode.Bounded : QuotedMode → Prop
  | unit count value => count < 4 ∧ value < 16 ^ count
  | pairBackslash high => isHighSurrogate high = true
  | pairLetter high => isHighSurrogate high = true
  | pairUnit high _ _ => isHighSurrogate high = true
  | _ => True

namespace PartialQuoted

variable {quoted : PartialQuoted}

def Bounded (quoted : PartialQuoted) : Prop :=
  quoted.mode.Bounded

theorem bounded_start : Bounded {} :=
  trivial

/-- A number that is a character is never refused. -/
theorem within_addCodePoint {code : Nat} (h : code.isValidChar) :
    (quoted.addCodePoint code).Within Bounded Malformation.Arises := by
  obtain ⟨c, hc⟩ := exists_charOfCodePoint? h
  rw [addCodePoint, hc]
  trivial

/-- Four digits are a character if they are no surrogate. -/
theorem within_addUnit {unit : Nat} (h : unit < 0x10000) :
    (quoted.addUnit unit).Within Bounded Malformation.Arises := by
  unfold addUnit
  cases hhigh : isHighSurrogate unit with
  | true => exact hhigh
  | false =>
      cases hlow : isLowSurrogate unit with
      | true => exact ⟨by simp, by simp⟩
      | false =>
          apply within_addCodePoint
          rw [Bool.eq_false_iff, ne_eq, isHighSurrogate_iff] at hhigh
          rw [Bool.eq_false_iff, ne_eq, isLowSurrogate_iff] at hlow
          simp only [Nat.isValidChar]
          omega

/-- So are two surrogates, a high one and a low one. -/
theorem within_addPair {high low : Nat} (h : isHighSurrogate high = true) :
    (quoted.addPair high low).Within Bounded Malformation.Arises := by
  unfold addPair
  by_cases hlow : isLowSurrogate low = true
  · rw [if_pos hlow]
    have hbounds : 0x10000 ≤ pairedCodePoint high low ∧ pairedCodePoint high low < 0x110000 := by
      rw [isHighSurrogate_iff] at h
      rw [isLowSurrogate_iff] at hlow
      unfold pairedCodePoint
      omega
    generalize pairedCodePoint high low = code at hbounds ⊢
    exact within_addCodePoint (.inr ⟨by omega, hbounds.2⟩)
  · rw [if_neg hlow]
    exact ⟨by simp, by simp⟩

/-- One case for each mode. -/
theorem within : scanner.Within Bounded Malformation.Arises where
  onByte quoted b h := by
    show (quoted.onByte b).Within Bounded Malformation.Arises
    obtain ⟨mode, buffer⟩ := quoted
    cases mode with
    | plain =>
        simp only [onByte, close]
        split
        · cases String.fromUTF8? buffer with
          | some text => trivial
          | none => exact ⟨by simp, by simp⟩
        · split
          · trivial
          · split
            · exact ⟨by simp, by simp⟩
            · trivial
    | escape =>
        simp only [onByte]
        split
        · exact ⟨by omega, by simp⟩
        · cases shortEscape? b with
          | some c => trivial
          | none => exact ⟨by simp, by simp⟩
    | unit count value =>
        obtain ⟨hcount, hvalue⟩ : count < 4 ∧ value < 16 ^ count := h
        simp only [onByte]
        cases hdigit : hexValue? b with
        | none => exact ⟨by simp, by simp⟩
        | some digit =>
            have hsmall := hexValue?_lt hdigit
            have hnext : value * 16 + digit < 16 ^ (count + 1) := by
              rw [pow_succ]
              omega
            by_cases hmore : count < 3
            · simp only [if_pos hmore]
              exact ⟨by omega, hnext⟩
            · obtain rfl : count = 3 := by omega
              exact within_addUnit hnext
    | pairBackslash high =>
        simp only [onByte]
        split
        · exact h
        · exact ⟨by simp, by simp⟩
    | pairLetter high =>
        simp only [onByte]
        split
        · exact h
        · exact ⟨by simp, by simp⟩
    | pairUnit high count value =>
        simp only [onByte]
        cases hexValue? b with
        | none => exact ⟨by simp, by simp⟩
        | some digit =>
            by_cases hmore : count < 3
            · simp only [if_pos hmore]
              exact h
            · simp only [if_neg hmore]
              exact within_addPair h
  onEnd quoted cause h := by simp [scanner] at h

end PartialQuoted

/-! ## Numbers and words -/

theorem PartialNumber.within : scanner.Within (fun _ => True) Malformation.Arises where
  onByte number b _ := by
    show (number.onByte b).Within _ _
    unfold onByte close
    cases number.phase.next? b with
    | some phase => trivial
    | none =>
        cases number.phase.lacking? with
        | none => trivial
        | some part => exact ⟨by simp, by simp⟩
  onEnd number cause h := by
    have hclose : number.close = .error (.malformed cause) := h
    unfold close at hclose
    cases hlacking : number.phase.lacking? with
    | none => simp [hlacking] at hclose
    | some part =>
        obtain rfl : Malformation.missingDigit part = cause := by simpa [hlacking] using hclose
        exact ⟨by simp, by simp⟩

theorem Literal.within (literal : Literal) :
    literal.scanner.Within (fun _ => True) Malformation.Arises where
  onByte rest b _ := by
    show (literal.onByte rest b).Within _ _
    cases rest with
    | nil => trivial
    | cons wanted more =>
        simp only [onByte]
        split
        · split <;> trivial
        · exact ⟨by simp, by simp⟩
  onEnd rest cause h := by
    cases rest with
    | nil => simp [scanner] at h
    | cons wanted more => simp [scanner] at h

end RequiredKeys
