import RequiredKeys.Input.Scanner

/-!
# The words `true`, `false` and `null`

A word is read from its first byte on.  A byte that differs is taken before the
word is given up, so the fault is reported behind that byte.
-/

namespace RequiredKeys
namespace Literal

/-- The bytes of a word. -/
def bytes : Literal → List UInt8
  | bool true => [0x74, 0x72, 0x75, 0x65]
  | bool false => [0x66, 0x61, 0x6c, 0x73, 0x65]
  | null => [0x6e, 0x75, 0x6c, 0x6c]

/-- The bytes spell the text that messages show. -/
theorem toByteArray_bytes (literal : Literal) :
    literal.bytes.toByteArray = literal.text.toUTF8 := by
  cases literal with
  | bool value => cases value <;> rfl
  | null => rfl

/-- Compares one byte with the rest of the word. -/
def onByte (literal : Literal) (rest : List UInt8) (b : UInt8) : Verdict (List UInt8) Unit :=
  match rest with
  | [] => .leave [] (.ok ())
  | wanted :: more =>
    if b = wanted then
      if more.isEmpty then .finish [] (.ok ()) else .take more
    else .finish rest (.error (.malformed (.brokenLiteral literal)))

/-- Reads the given word; the state is what is left of it. -/
def scanner (literal : Literal) : Scanner (List UInt8) Unit where
  onByte := literal.onByte
  onEnd rest := if rest.isEmpty then .ok () else .error .truncated

/-- The word that begins with a byte. -/
def ofFirst? (b : UInt8) : Option Literal :=
  match b with
  | Ascii.lowerT => some (.bool true)
  | Ascii.lowerF => some (.bool false)
  | Ascii.lowerN => some .null
  | _ => none

end Literal
end RequiredKeys
