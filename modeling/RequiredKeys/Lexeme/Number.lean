import RequiredKeys.Input.Scanner

/-!
# Number texts

A number is an optional minus sign, a whole part without leading zeros, and
optionally a fraction and an exponent.  Nothing in a number says that it is
over, so the scanner takes bytes as long as some number could begin with them,
and leaves the first byte that fits no number.  What has been taken is then
either a complete number, which is handed on byte for byte, or it lacks a digit.
-/

namespace RequiredKeys

/-- How much of a number has been read. -/
inductive NumberPhase
  | start
  | minus
  /-- A whole part that is the digit zero. -/
  | zero
  | whole
  | point
  | fraction
  | exponentMark
  | exponentSign
  | exponent
  deriving DecidableEq, Repr, Inhabited

namespace NumberPhase

open Ascii

/-- The phase after one more byte, if a number can go on with it. -/
def next? (phase : NumberPhase) (b : UInt8) : Option NumberPhase :=
  match phase with
  | start =>
    if b = Ascii.minus then some minus
    else if b = Ascii.zero then some zero
    else if isDigit b then some whole
    else none
  | minus =>
    if b = Ascii.zero then some zero
    else if isDigit b then some whole
    else none
  | zero =>
    if b = Ascii.point then some point
    else if isExponentMark b then some exponentMark
    else none
  | whole =>
    if isDigit b then some whole
    else if b = Ascii.point then some point
    else if isExponentMark b then some exponentMark
    else none
  | point => if isDigit b then some fraction else none
  | fraction =>
    if isDigit b then some fraction
    else if isExponentMark b then some exponentMark
    else none
  | exponentMark =>
    if isSign b then some exponentSign
    else if isDigit b then some exponent
    else none
  | exponentSign => if isDigit b then some exponent else none
  | exponent => if isDigit b then some exponent else none

/-- The part whose first digit is still to come; `none` when the number may end here. -/
def lacking? : NumberPhase → Option NumberPart
  | start => some .whole
  | minus => some .whole
  | zero => none
  | whole => none
  | point => some .fraction
  | fraction => none
  | exponentMark => some .exponent
  | exponentSign => some .exponent
  | exponent => none

end NumberPhase

/-- The part of a number read so far. -/
structure PartialNumber where
  phase : NumberPhase := .start
  text : String := ""
  deriving DecidableEq, Repr, Inhabited

namespace PartialNumber

/-- The outcome if no further byte belongs to the number. -/
def close (number : PartialNumber) : Except Refusal String :=
  match number.phase.lacking? with
  | none => .ok number.text
  | some part => .error (.malformed (.missingDigit part))

def onByte (number : PartialNumber) (b : UInt8) : Verdict PartialNumber String :=
  match number.phase.next? b with
  | some phase => .take ⟨phase, number.text.push (Char.ofUInt8 b)⟩
  | none => .leave number number.close

/-- Reads a number from its first byte. -/
def scanner : Scanner PartialNumber String where
  onByte := onByte
  onEnd := close

end PartialNumber
end RequiredKeys
