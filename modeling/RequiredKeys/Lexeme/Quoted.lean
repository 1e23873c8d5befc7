import RequiredKeys.Input.Scanner

/-!
# Quoted texts

The scanner of this module reads a string behind its opening quote, up to and
including the closing one.  Unescaped bytes are kept as they come, escapes add
the UTF-8 form of the character they stand for, and the whole is checked to be
UTF-8 at the closing quote.  The check can wait: an escape adds complete
characters, which never complete a broken sequence in front of them.

A character beyond U+FFFF is escaped as a pair of surrogates, two escapes of
four digits each; a surrogate in any other place is refused.
-/

namespace RequiredKeys

/-- Surrogates that open a pair. -/
def isHighSurrogate (unit : Nat) : Bool :=
  0xd800 ≤ unit && unit ≤ 0xdbff

/-- Surrogates that close a pair. -/
def isLowSurrogate (unit : Nat) : Bool :=
  0xdc00 ≤ unit && unit ≤ 0xdfff

/-- The code point that a pair of surrogates stands for. -/
def pairedCodePoint (high low : Nat) : Nat :=
  0x10000 + (high - 0xd800) * 0x400 + (low - 0xdc00)

/-- The character with a given number, if there is one. -/
def charOfCodePoint? (code : Nat) : Option Char :=
  if h : code.isValidChar then some (Char.ofNatAux code h) else none

/-- Where a scan stands inside a string. -/
inductive QuotedMode
  | plain
  /-- Behind a backslash. -/
  | escape
  /-- Inside the four digits of an escape: how many are read, and their value. -/
  | unit (count value : Nat)
  /-- Behind a high surrogate. -/
  | pairBackslash (high : Nat)
  /-- Behind a high surrogate and a backslash. -/
  | pairLetter (high : Nat)
  /-- Inside the four digits of a pair's second half. -/
  | pairUnit (high count value : Nat)
  deriving DecidableEq, Repr, Inhabited

/-- The part of a string read so far. -/
structure PartialQuoted where
  mode : QuotedMode := .plain
  buffer : ByteArray := ByteArray.empty
  deriving Inhabited

namespace PartialQuoted

open Ascii

/-- Adds one byte that stands for itself. -/
def addByte (quoted : PartialQuoted) (b : UInt8) : PartialQuoted :=
  ⟨.plain, quoted.buffer.push b⟩

/-- Adds a character that was written as an escape. -/
def addChar (quoted : PartialQuoted) (c : Char) : PartialQuoted :=
  ⟨.plain, quoted.buffer ++ (String.singleton c).toUTF8⟩

/-- The text of a string that ends here. -/
def close (quoted : PartialQuoted) : Except Refusal String :=
  match String.fromUTF8? quoted.buffer with
  | some text => .ok text
  | none => .error (.malformed .badUtf8)

/-- The characters that have an escape of one letter. -/
def shortEscape? (b : UInt8) : Option Char :=
  match b with
  | quote => some '"'
  | backslash => some '\\'
  | slash => some '/'
  | lowerB => some '\x08'
  | lowerF => some '\x0c'
  | lowerN => some '\n'
  | lowerR => some '\r'
  | lowerT => some '\t'
  | _ => none

/-- Gives the string up behind the byte that was read last. -/
def giveUp (quoted : PartialQuoted) (cause : Malformation) : Verdict PartialQuoted String :=
  .finish quoted (.error (.malformed cause))

/-- Goes on behind an escape for the given code point. -/
def addCodePoint (quoted : PartialQuoted) (code : Nat) : Verdict PartialQuoted String :=
  match charOfCodePoint? code with
  | some c => .take (quoted.addChar c)
  | none => quoted.giveUp .badCodePoint

/-- Goes on behind the four digits of an escape. -/
def addUnit (quoted : PartialQuoted) (unit : Nat) : Verdict PartialQuoted String :=
  if isHighSurrogate unit then .take ⟨.pairBackslash unit, quoted.buffer⟩
  else if isLowSurrogate unit then quoted.giveUp .unpairedSurrogate
  else quoted.addCodePoint unit

/-- Goes on behind the four digits of a pair's second half. -/
def addPair (quoted : PartialQuoted) (high low : Nat) : Verdict PartialQuoted String :=
  if isLowSurrogate low then quoted.addCodePoint (pairedCodePoint high low)
  else quoted.giveUp .badLowSurrogate

def onByte (quoted : PartialQuoted) (b : UInt8) : Verdict PartialQuoted String :=
  match quoted.mode with
  | .plain =>
    if b = quote then .finish quoted quoted.close
    else if b = backslash then .take ⟨.escape, quoted.buffer⟩
    else if isControl b then quoted.giveUp .controlCharacter
    else .take (quoted.addByte b)
  | .escape =>
    if b = lowerU then .take ⟨.unit 0 0, quoted.buffer⟩
    else
      match shortEscape? b with
      | some c => .take (quoted.addChar c)
      | none => quoted.giveUp (.badEscape b)
  | .unit count value =>
    match hexValue? b with
    | none => quoted.giveUp .badHexDigit
    | some digit =>
      if count < 3 then .take ⟨.unit (count + 1) (value * 16 + digit), quoted.buffer⟩
      else quoted.addUnit (value * 16 + digit)
  | .pairBackslash high =>
    if b = backslash then .take ⟨.pairLetter high, quoted.buffer⟩
    else quoted.giveUp .unpairedSurrogate
  | .pairLetter high =>
    if b = lowerU then .take ⟨.pairUnit high 0 0, quoted.buffer⟩
    else quoted.giveUp .unpairedSurrogate
  | .pairUnit high count value =>
    match hexValue? b with
    | none => quoted.giveUp .badHexDigit
    | some digit =>
      if count < 3 then .take ⟨.pairUnit high (count + 1) (value * 16 + digit), quoted.buffer⟩
      else quoted.addPair high (value * 16 + digit)

/-- Reads a string behind its opening quote. -/
def scanner : Scanner PartialQuoted String where
  onByte := onByte
  onEnd _ := .error .truncated

end PartialQuoted
end RequiredKeys
