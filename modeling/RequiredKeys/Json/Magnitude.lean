/-!
# Numbers that are too large

A reader that turns numbers into doubles refuses those that would become
infinite.  It collects the digits of a number in a significand below 2^64 and
counts the rest of the number in a decimal exponent.  Whole digits that no
longer fit raise the exponent; digits of the fraction that no longer fit are
dropped.  The significand and the power of ten are then rounded to doubles, and
their product must round to a finite one.

A number that is too small is no fault: it becomes zero.
-/

namespace RequiredKeys

/-- A number as a reader of doubles sees it: the significand times a power of ten. -/
structure Magnitude where
  significand : Nat := 0
  exponent : Int := 0
  deriving DecidableEq, Repr, Inhabited

namespace Magnitude

/-- Significands stay below this bound. -/
def capacity : Nat := Nat.pow 2 64

/-- The largest power of ten that is a finite double. -/
def maxPower : Nat := 308

/-- The least number that rounds to an infinite double: half a step of the
largest doubles below 2^1024, which as a tie goes up. -/
def overflowBound : Nat := Nat.pow 2 1024 - Nat.pow 2 970

def digitValue (c : Char) : Nat :=
  c.toNat - '0'.toNat

/-- The number that a row of digits writes. -/
def ofDigits (digits : List Char) : Nat :=
  digits.foldl (fun value c => value * 10 + digitValue c) 0

/-- Adds the digits in front of the point. -/
def addWhole (m : Magnitude) : List Char → Magnitude
  | [] => m
  | c :: digits =>
    let grown := m.significand * 10 + digitValue c
    if grown < capacity then addWhole { m with significand := grown } digits
    else { m with exponent := m.exponent + (digits.length + 1 : Nat) }

/-- Adds the digits behind the point. -/
def addFraction (m : Magnitude) : List Char → Magnitude
  | [] => m
  | c :: digits =>
    let grown := m.significand * 10 + digitValue c
    if grown < capacity then addFraction ⟨grown, m.exponent - 1⟩ digits
    else m

/-- The value of an exponent behind its mark. -/
def exponentOf (text : List Char) : Int :=
  match text with
  | '-' :: digits => -(ofDigits digits : Int)
  | '+' :: digits => ofDigits digits
  | digits => ofDigits digits

/-- The magnitude of a number text; its sign does not matter. -/
def ofText (text : String) : Magnitude :=
  let unsigned := text.toList.dropWhile (· == '-')
  let behindWhole := unsigned.dropWhile Char.isDigit
  let m := ({} : Magnitude).addWhole (unsigned.takeWhile Char.isDigit)
  let (m, behindFraction) :=
    match behindWhole with
    | '.' :: rest => (m.addFraction (rest.takeWhile Char.isDigit), rest.dropWhile Char.isDigit)
    | rest => (m, rest)
  match behindFraction with
  | _ :: rest => { m with exponent := m.exponent + exponentOf rest }
  | [] => m

/-- The nearest number of 53 significant bits; of two nearest the even one. -/
def toDouble (n : Nat) : Nat :=
  let shift := n.log2 - 52
  let step := Nat.pow 2 shift
  let low := n / step
  let rest := n % step
  if 2 * rest < step then low * step
  else if 2 * rest = step && low % 2 = 0 then low * step
  else (low + 1) * step

/-- Whether the number becomes a finite double. -/
def isFinite (m : Magnitude) : Bool :=
  m.significand == 0 ||
    match m.exponent with
    | .negSucc _ => true
    | .ofNat e =>
      e ≤ maxPower && toDouble m.significand * toDouble (Nat.pow 10 e) < overflowBound

end Magnitude
end RequiredKeys
