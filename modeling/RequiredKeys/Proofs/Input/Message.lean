import RequiredKeys.Input.Error
import RequiredKeys.Proofs.Text.Printable

/-!
# What messages say

The wording of a cause can be read in two ways: as a text that is shown, and as a claim about the
document.  `StreamError.printable_message_malformed` is about the text.  For the claim it matters
that a message that names a byte is made by one cause only, so that whoever reads the name knows
which byte was meant (`Malformation.exists_of_message_unexpected` and
`Malformation.exists_of_message_escape`).

A cause that some other reader has described has a wording of its own, so nothing is said of it.
-/

namespace RequiredKeys

namespace Malformation

variable {cause : Malformation}

/-- **The wording of a cause is printable**, whatever byte it names. -/
theorem printable_message (hown : ∀ text, cause ≠ .described text) : Printable cause.message := by
  cases cause with
  | unexpected b wanted =>
      have hwanted : Printable wanted.description := by
        cases wanted with
        | separator => decide +kernel
        | value => decide +kernel
        | expected expectation => cases expectation <;> decide +kernel
      have hopening : Printable "unexpected character '" := by decide +kernel
      have hmiddle : Printable "' (" := by decide +kernel
      have hclosing : Printable ")" := by decide +kernel
      exact (((hopening.append (Ascii.printable_shown b)).append hmiddle).append hwanted).append
        hclosing
  | badEscape b =>
      have hopening : Printable "invalid escape '\\" := by decide +kernel
      have hclosing : Printable "'" := by decide +kernel
      exact (hopening.append (Ascii.printable_shown b)).append hclosing
  | brokenLiteral literal =>
      cases literal with
      | bool value => cases value <;> decide +kernel
      | null => decide +kernel
  | missingDigit part => cases part <;> decide +kernel
  | described text => exact absurd rfl (hown text)
  | _ => decide +kernel

/-- The first nine letters of a wording.  They tell the kinds of causes apart that name a byte. -/
def letters : Malformation → String
  | unexpected _ _ => "unexpecte"
  | brokenLiteral _ => "invalid l"
  | missingDigit _ => "invalid n"
  | controlCharacter => "unescaped"
  | badUtf8 => "invalid U"
  | badEscape _ => "invalid e"
  | badHexDigit => "invalid h"
  | unpairedSurrogate => "unpaired "
  | badLowSurrogate => "invalid l"
  | badCodePoint => "invalid \\"
  | strayClose => "closing b"
  | described _ => ""

theorem take_toList_append {left : String} {n : Nat} (h : n ≤ left.toList.length)
    (right : String) : (left ++ right).toList.take n = left.toList.take n := by
  rw [String.toList_append, List.take_append_of_le_length h]

theorem take_message (hown : ∀ text, cause ≠ .described text) :
    cause.message.toList.take 9 = cause.letters.toList := by
  cases cause with
  | unexpected b wanted =>
      have htext : (unexpected b wanted).message = "unexpected character '" ++
          (Ascii.shown b ++ "' (" ++ wanted.description ++ ")") := by
        simp only [← String.append_assoc]
        rfl
      rw [htext, take_toList_append (by decide)]
      show _ = "unexpecte".toList
      decide +kernel
  | brokenLiteral literal =>
      cases literal with
      | bool value => cases value <;> decide +kernel
      | null => decide +kernel
  | missingDigit part => cases part <;> decide +kernel
  | badEscape b =>
      have htext : (badEscape b).message = "invalid escape '\\" ++ (Ascii.shown b ++ "'") := by
        rw [← String.append_assoc]
        rfl
      rw [htext, take_toList_append (by decide)]
      show _ = "invalid e".toList
      decide +kernel
  | described text => exact absurd rfl (hown text)
  | _ => decide +kernel

/-- **A message about an unexpected character** is made by one kind of cause. -/
theorem exists_of_message_unexpected (hown : ∀ text, cause ≠ .described text) {text : String}
    (h : cause.message = "unexpected character '" ++ text) :
    ∃ b wanted, cause = .unexpected b wanted ∧
      text = Ascii.shown b ++ "' (" ++ wanted.description ++ ")" := by
  have hletters : cause.letters = "unexpecte" := by
    rw [← String.toList_inj, ← take_message hown, h, take_toList_append (by decide)]
    rfl
  cases cause with
  | unexpected b wanted =>
      refine ⟨b, wanted, rfl, (String.append_right_inj "unexpected character '").mp ?_⟩
      rw [← h]
      simp only [← String.append_assoc]
      rfl
  | described text => exact absurd rfl (hown text)
  | _ => simp [letters] at hletters

/-- **A message about an escape** is made by one kind of cause. -/
theorem exists_of_message_escape (hown : ∀ text, cause ≠ .described text) {text : String}
    (h : cause.message = "invalid escape '\\" ++ text) :
    ∃ b, cause = .badEscape b ∧ text = Ascii.shown b ++ "'" := by
  have hletters : cause.letters = "invalid e" := by
    rw [← String.toList_inj, ← take_message hown, h, take_toList_append (by decide)]
    rfl
  cases cause with
  | badEscape b =>
      refine ⟨b, rfl, (String.append_right_inj "invalid escape '\\").mp ?_⟩
      rw [← h, ← String.append_assoc]
      rfl
  | described text => exact absurd rfl (hown text)
  | _ => simp [letters] at hletters

/-- Two messages are made by one cause each. -/
theorem message_eq_message_iff (hown : ∀ text, cause ≠ .described text) :
    (cause.message = strayClose.message ↔ cause = .strayClose) ∧
      (cause.message = badCodePoint.message ↔ cause = .badCodePoint) := by
  have hletters {other : Malformation} (hother : ∀ text, other ≠ .described text)
      (h : cause.message = other.message) : cause.letters = other.letters := by
    rw [← String.toList_inj, ← take_message hown, h, take_message hother]
  constructor
  · refine ⟨fun h => ?_, fun h => congrArg message h⟩
    have hfirst := hletters (by simp) h
    cases cause with
    | strayClose => rfl
    | described text => exact absurd rfl (hown text)
    | _ => simp [letters] at hfirst
  · refine ⟨fun h => ?_, fun h => congrArg message h⟩
    have hfirst := hletters (by simp) h
    cases cause with
    | badCodePoint => rfl
    | described text => exact absurd rfl (hown text)
    | _ => simp [letters] at hfirst

end Malformation

/-- **The message of a syntax error is printable** from its first to its last character. -/
theorem StreamError.printable_message_malformed {q : Position} {cause : Malformation}
    (hown : ∀ text, cause ≠ .described text) :
    Printable (StreamError.malformed q cause).message := by
  have hopening : Printable "malformed JSON at " := by decide +kernel
  have hline : Printable "line " := by decide +kernel
  have hcolumn : Printable ", column " := by decide +kernel
  have hcolon : Printable ": " := by decide +kernel
  have hposition : Printable q.description :=
    ((hline.append (.decimal q.line)).append hcolumn).append (.decimal q.column)
  exact ((hopening.append hposition).append hcolon).append (cause.printable_message hown)

end RequiredKeys
