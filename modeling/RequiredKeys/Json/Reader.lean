import RequiredKeys.Json.Magnitude
import RequiredKeys.Json.Value
import RequiredKeys.Lexeme.Quoted
import RequiredKeys.Lexeme.Word

/-!
# Reading one JSON value

Schemas and settings are small, so they are read as a whole, by recursive
descent over their bytes.  This reader has nothing in common with the tokenizer
but the alphabet: it takes exactly one value with white space around it, at
most `maxNesting` containers inside one another, and only numbers that become
finite doubles.

Every function takes something off the front of the bytes and gives it together
with the bytes behind it, or gives nothing if the bytes begin with no such thing.
-/

namespace RequiredKeys
namespace Json
namespace Reader

open Ascii

/-- Takes something off the front of a text. -/
abbrev PartReader (α : Type) := List UInt8 → Option (α × List UInt8)

/-- The deepest nesting of containers that is read. -/
def maxNesting : Nat := 127

def skipBlanks (input : List UInt8) : List UInt8 :=
  input.dropWhile isBlank

/-- The characters of bytes below U+0080. -/
def asciiText (bytes : List UInt8) : String :=
  String.ofList (bytes.map Char.ofUInt8)

/-! ## Strings -/

/-- The four digits of an escape. -/
def unit : PartReader Nat
  | a :: b :: c :: d :: rest => do
    let a ← hexValue? a
    let b ← hexValue? b
    let c ← hexValue? c
    let d ← hexValue? d
    some (((a * 16 + b) * 16 + c) * 16 + d, rest)
  | _ => none

/-- The second half of a surrogate pair. -/
def lowUnit : PartReader Nat
  | b :: u :: rest => if b = backslash ∧ u = lowerU then unit rest else none
  | _ => none

/-- The code point of an escape behind its `u`. -/
def codePoint (input : List UInt8) : Option (Nat × List UInt8) := do
  let (high, rest) ← unit input
  if isHighSurrogate high then
    let (low, rest) ← lowUnit rest
    if isLowSurrogate low then some (pairedCodePoint high low, rest) else none
  else if isLowSurrogate high then none
  else some (high, rest)

/-- The character of an escape behind its backslash. -/
def escape : PartReader Char
  | [] => none
  | b :: rest =>
    if b = lowerU then do
      let (code, rest) ← codePoint rest
      (charOfCodePoint? code).map (·, rest)
    else (PartialQuoted.shortEscape? b).map (·, rest)

/-- The bytes that the next byte or escape of a string stands for. -/
def stringPiece : PartReader (List UInt8)
  | [] => none
  | b :: rest =>
    if b = backslash then (escape rest).map (fun (c, rest) => (String.utf8EncodeChar c, rest))
    else if isControl b then none
    else some ([b], rest)

theorem length_of_unit {input rest : List UInt8} {n : Nat} (h : unit input = some (n, rest)) :
    rest.length < input.length := by
  unfold unit at h
  split at h
  · simp only [Option.bind_eq_bind, Option.bind_eq_some_iff, Option.some.injEq, Prod.mk.injEq] at h
    obtain ⟨_, _, _, _, _, _, _, _, _, rfl⟩ := h
    simp only [List.length_cons]
    omega
  · simp at h

theorem length_of_codePoint {input rest : List UInt8} {n : Nat}
    (h : codePoint input = some (n, rest)) : rest.length < input.length := by
  simp only [codePoint, Option.bind_eq_bind, Option.bind_eq_some_iff, Prod.exists] at h
  obtain ⟨high, behind, hunit, h⟩ := h
  have hlt := length_of_unit hunit
  split at h
  · simp only [Option.bind_eq_some_iff, Prod.exists] at h
    obtain ⟨low, behindLow, hlow, h⟩ := h
    unfold lowUnit at hlow
    split at hlow
    · split at hlow
      · have hlt' := length_of_unit hlow
        split at h
        · simp only [Option.some.injEq, Prod.mk.injEq] at h
          obtain ⟨-, rfl⟩ := h
          simp only [List.length_cons] at hlt hlt'
          omega
        · simp at h
      · simp at hlow
    · simp at hlow
  · split at h
    · simp at h
    · simp only [Option.some.injEq, Prod.mk.injEq] at h
      obtain ⟨-, rfl⟩ := h
      exact hlt

theorem length_of_escape {input rest : List UInt8} {c : Char}
    (h : escape input = some (c, rest)) : rest.length < input.length := by
  unfold escape at h
  split at h
  · simp at h
  · split at h
    · simp only [Option.bind_eq_bind, Option.bind_eq_some_iff, Option.map_eq_some_iff,
        Prod.mk.injEq, Prod.exists] at h
      obtain ⟨code, behind, hcode, _, _, -, rfl⟩ := h
      have hlt := length_of_codePoint hcode
      simp only [List.length_cons]
      omega
    · simp only [Option.map_eq_some_iff, Prod.mk.injEq] at h
      obtain ⟨_, _, -, rfl⟩ := h
      simp

theorem length_of_stringPiece {input rest piece : List UInt8}
    (h : stringPiece input = some (piece, rest)) : rest.length < input.length := by
  unfold stringPiece at h
  split at h
  · simp at h
  · split at h
    · simp only [Option.map_eq_some_iff, Prod.mk.injEq, Prod.exists] at h
      obtain ⟨_, _, hescape, -, rfl⟩ := h
      have hlt := length_of_escape hescape
      simp only [List.length_cons]
      omega
    · split at h
      · simp at h
      · simp only [Option.some.injEq, Prod.mk.injEq] at h
        obtain ⟨-, rfl⟩ := h
        simp

/-- The bytes that a string stands for, read up to its closing quote. -/
def stringBytes (input : List UInt8) : Option (List UInt8 × List UInt8) :=
  if input.head? = some quote then some ([], input.tail)
  else
    match hpiece : stringPiece input with
    | none => none
    | some (piece, rest) =>
      have := length_of_stringPiece hpiece
      (stringBytes rest).map (fun (more, rest) => (piece ++ more, rest))
termination_by input.length

/-- A string behind its opening quote. -/
def string (input : List UInt8) : Option (String × List UInt8) := do
  let (bytes, rest) ← stringBytes input
  let text ← String.fromUTF8? bytes.toByteArray
  some (text, rest)

/-! ## Numbers and words -/

/-- One or more digits. -/
def digits (input : List UInt8) : Option (List UInt8 × List UInt8) :=
  if (input.takeWhile isDigit).isEmpty then none
  else some (input.takeWhile isDigit, input.dropWhile isDigit)

/-- The given byte, if it comes next; otherwise nothing. -/
def optionalByte (wanted : UInt8 → Bool) : List UInt8 → List UInt8 × List UInt8
  | [] => ([], [])
  | b :: rest => if wanted b then ([b], rest) else ([], b :: rest)

/-- A whole part: the digit zero alone, or digits that do not begin with it. -/
def whole : PartReader (List UInt8)
  | [] => none
  | b :: rest => if b = zero then some ([b], rest) else digits (b :: rest)

/-- A point with digits behind it, or nothing. -/
def fraction (input : List UInt8) : Option (List UInt8 × List UInt8) :=
  match optionalByte (· == point) input with
  | ([], rest) => some ([], rest)
  | (mark, rest) => (digits rest).map (fun (digits, rest) => (mark ++ digits, rest))

/-- An exponent with its mark, or nothing. -/
def exponent (input : List UInt8) : Option (List UInt8 × List UInt8) :=
  match optionalByte isExponentMark input with
  | ([], rest) => some ([], rest)
  | (mark, rest) =>
    let (sign, rest) := optionalByte isSign rest
    (digits rest).map (fun (digits, rest) => (mark ++ sign ++ digits, rest))

/-- The text of a number. -/
def numberText (input : List UInt8) : Option (String × List UInt8) := do
  let (sign, rest) := optionalByte (· == minus) input
  let (whole, rest) ← whole rest
  let (fraction, rest) ← fraction rest
  let (exponent, rest) ← exponent rest
  some (asciiText (sign ++ whole ++ fraction ++ exponent), rest)

/-- A number that becomes a finite double. -/
def number (input : List UInt8) : Option (Json × List UInt8) := do
  let (text, rest) ← numberText input
  if (Magnitude.ofText text).isFinite then some (Json.number text, rest) else none

/-- One of the three words. -/
def literal (input : List UInt8) : Option (Json × List UInt8) :=
  let word (literal : Literal) (value : Json) : Option (Json × List UInt8) :=
    if literal.bytes.isPrefixOf input then some (value, input.drop literal.bytes.length) else none
  (word (.bool true) (.bool true)).or
    ((word (.bool false) (.bool false)).or (word .null .null))

/-! ## Values -/

/-- One or more parts with commas between them, up to the closing byte.  There are
at most `bound` parts. -/
def parts {α : Type} (part : PartReader α) (closer : UInt8) : Nat → PartReader (List α)
  | 0, _ => none
  | bound + 1, input => do
    let (first, rest) ← part input
    match skipBlanks rest with
    | [] => none
    | b :: rest =>
      if b = comma then
        (parts part closer bound rest).map (fun (more, rest) => (first :: more, rest))
      else if b = closer then some ([first], rest)
      else none

/-- The parts of a container behind its opening bracket.  Each part has a byte at
least, so the bytes bound their number. -/
def body {α : Type} (part : PartReader α) (closer : UInt8) (input : List UInt8) :
    Option (List α × List UInt8) :=
  match skipBlanks input with
  | [] => none
  | b :: rest =>
    if b = closer then some ([], rest)
    else parts part closer (b :: rest).length (b :: rest)

/-- A member of an object. -/
def member (value : PartReader Json) (input : List UInt8) :
    Option ((String × Json) × List UInt8) :=
  match skipBlanks input with
  | [] => none
  | b :: rest => do
    if b ≠ quote then none
    else
      let (key, rest) ← string rest
      match skipBlanks rest with
      | [] => none
      | b :: rest =>
        if b ≠ colon then none
        else (value rest).map (fun (json, rest) => ((key, json), rest))

/-- A value; what stands inside a container is read by `inner`, and without
`inner` no container may come. -/
def valueWith (inner : Option (PartReader Json)) (input : List UInt8) :
    Option (Json × List UInt8) :=
  match skipBlanks input with
  | [] => none
  | b :: rest =>
    match b with
    | openBracket => do
      let (elements, rest) ← body (← inner) closeBracket rest
      some (.array elements, rest)
    | openBrace => do
      let (members, rest) ← body (member (← inner)) closeBrace rest
      some (.object members, rest)
    | quote => (string rest).map (fun (text, rest) => (.string text, rest))
    | _ => if b = minus || isDigit b then number (b :: rest) else literal (b :: rest)

/-- A value with at most the given nesting. -/
def value : Nat → PartReader Json
  | 0 => valueWith none
  | nesting + 1 => valueWith (some (value nesting))

end Reader

/-- Reads a text that is one JSON value. -/
def read? (text : List UInt8) : Option Json := do
  let (json, rest) ← Reader.value Reader.maxNesting text
  if (Reader.skipBlanks rest).isEmpty then some json else none

end Json
end RequiredKeys
