import RequiredKeys.Input.Position

/-!
# What can be wrong with a document

A reader of a document fails for one of three reasons: the input could not be
read, its text is malformed, or it ends too early.  Malformed text is described
by its cause, and the wording of every cause is in this module alone.

Pieces of text are refused without knowing where they stand (`Refusal`); the
scan that feeds them adds the position and makes a `StreamError` of it.
-/

namespace RequiredKeys

/-- What the innermost open container allows next. -/
inductive Expectation
  /-- After an opening brace. -/
  | keyOrEnd
  /-- After a comma in an object. -/
  | key
  /-- After a key. -/
  | colon
  /-- After a colon, or after a comma in an array. -/
  | value
  /-- After an opening bracket. -/
  | valueOrEnd
  /-- After a complete member or element. -/
  | commaOrEnd
  deriving DecidableEq, Repr, Inhabited

/-- The three fixed words of the grammar. -/
inductive Literal
  | bool (value : Bool)
  | null
  deriving DecidableEq, Repr, Inhabited

/-- The part of a number that ought to begin with a digit. -/
inductive NumberPart
  | whole
  | fraction
  | exponent
  deriving DecidableEq, Repr, Inhabited

/-- What was looked for where a wrong byte stood. -/
inductive Wanted
  /-- White space or a bracket behind a scalar root value. -/
  | separator
  /-- The first byte of a value. -/
  | value
  /-- What the innermost container allows. -/
  | expected (expectation : Expectation)
  deriving DecidableEq, Repr, Inhabited

/-- Why a text is no JSON. -/
inductive Malformation
  | unexpected (byte : UInt8) (wanted : Wanted)
  | brokenLiteral (literal : Literal)
  | missingDigit (part : NumberPart)
  | controlCharacter
  | badUtf8
  | badEscape (byte : UInt8)
  | badHexDigit
  | unpairedSurrogate
  | badLowSurrogate
  | badCodePoint
  | strayClose
  /-- A fault that some other reader found, in its own words. -/
  | described (text : String)
  deriving DecidableEq, Repr, Inhabited

/-- Why a piece of text is refused, wherever it stands. -/
inductive Refusal
  | malformed (cause : Malformation)
  | truncated
  deriving DecidableEq, Repr, Inhabited

/-- A failure of reading a document. -/
inductive StreamError
  | unreadable (reason : String)
  | malformed (position : Position) (cause : Malformation)
  | truncated (position : Position)
  deriving DecidableEq, Repr, Inhabited

namespace Literal

def text : Literal → String
  | bool true => "true"
  | bool false => "false"
  | null => "null"

end Literal

namespace Expectation

def description : Expectation → String
  | keyOrEnd => "expected a field name or '\x7d'"
  | key => "expected a field name"
  | colon => "expected ':'"
  | value => "expected a value"
  | valueOrEnd => "expected a value or ']'"
  | commaOrEnd => "expected ',' or a closing bracket"

end Expectation

namespace Wanted

def description : Wanted → String
  | separator => "expected whitespace between root values"
  | value => "expected a value"
  | expected expectation => expectation.description

end Wanted

namespace NumberPart

def description : NumberPart → String
  | whole => "expected a digit"
  | fraction => "expected a digit after '.'"
  | exponent => "expected a digit in exponent"

end NumberPart

namespace Malformation

def message : Malformation → String
  | unexpected byte wanted =>
    "unexpected character '" ++ Ascii.shown byte ++ "' (" ++ wanted.description ++ ")"
  | brokenLiteral literal => "invalid literal, expected '" ++ literal.text ++ "'"
  | missingDigit part => "invalid number, " ++ part.description
  | controlCharacter => "unescaped control character in string"
  | badUtf8 => "invalid UTF-8 in string"
  | badEscape byte => "invalid escape '\\" ++ Ascii.shown byte ++ "'"
  | badHexDigit => "invalid hex digit in \\u escape"
  | unpairedSurrogate => "unpaired surrogate in \\u escape"
  | badLowSurrogate => "invalid low surrogate in \\u escape"
  | badCodePoint => "invalid \\u escape"
  | strayClose => "closing bracket without open container"
  | described text => text

end Malformation

namespace Position

/-- A position as messages give it. -/
def description (p : Position) : String :=
  "line " ++ toString p.line ++ ", column " ++ toString p.column

end Position

namespace Refusal

/-- The refusal of a piece of text, noticed at position `p`. -/
def seenAt (p : Position) : Refusal → StreamError
  | malformed cause => .malformed p cause
  | truncated => .truncated p

end Refusal

namespace StreamError

/-- The stable name of the kind of failure. -/
def code : StreamError → String
  | unreadable _ => "STREAM_IO_ERROR"
  | malformed _ _ => "STREAM_SYNTAX_ERROR"
  | truncated _ => "STREAM_UNEXPECTED_EOF"

def message : StreamError → String
  | unreadable reason => "I/O error while reading JSON stream: " ++ reason
  | malformed p cause => "malformed JSON at " ++ p.description ++ ": " ++ cause.message
  | truncated p => "unexpected end of JSON input at " ++ p.description

/-- Where the document was given up, if the document is to blame. -/
def position? : StreamError → Option Position
  | unreadable _ => none
  | malformed p _ => some p
  | truncated p => some p

end StreamError
end RequiredKeys
