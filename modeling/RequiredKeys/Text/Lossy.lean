/-!
# Showing bytes that may not be UTF-8

File names are bytes.  To show one, its well-formed characters are kept, and
each ill-formed part becomes one replacement character: a byte that begins no
character, or the longest beginning of a character that is not completed.
-/

namespace RequiredKeys
namespace Lossy

/-- An inclusive range of bytes. -/
abbrev ByteRange := UInt8 × UInt8

def inRange (range : ByteRange) (b : UInt8) : Bool :=
  range.1 ≤ b && b ≤ range.2

/-- The bytes that may follow inside a character. -/
def trailing : ByteRange := (0x80, 0xbf)

/-- The ranges of the bytes that must follow a first byte; `none` if no character
begins with it. -/
def following? (first : UInt8) : Option (List ByteRange) :=
  if first ≤ 0x7f then some []
  else if first < 0xc2 then none
  else if first ≤ 0xdf then some [trailing]
  else if first = 0xe0 then some [(0xa0, 0xbf), trailing]
  else if first = 0xed then some [(0x80, 0x9f), trailing]
  else if first ≤ 0xef then some [trailing, trailing]
  else if first = 0xf0 then some [(0x90, 0xbf), trailing, trailing]
  else if first ≤ 0xf3 then some [trailing, trailing, trailing]
  else if first = 0xf4 then some [(0x80, 0x8f), trailing, trailing]
  else none

/-- How many bytes fit their ranges, up to the first that does not. -/
def fitting : List ByteRange → List UInt8 → Nat
  | range :: ranges, b :: bytes => if inRange range b then fitting ranges bytes + 1 else 0
  | _, _ => 0

/-- The character that stands for an ill-formed part. -/
def replacement : String := "\ufffd"

/-- The text of bytes, ill-formed parts replaced. -/
def decode : List UInt8 → String
  | [] => ""
  | first :: bytes =>
    match following? first with
    | none => replacement ++ decode bytes
    | some ranges =>
      let count := fitting ranges bytes
      let character := String.fromUTF8? (first :: bytes.take count).toByteArray
      character.getD replacement ++ decode (bytes.drop count)
termination_by bytes => bytes.length
decreasing_by
  all_goals simp only [List.length_drop, List.length_cons]; omega

end Lossy
end RequiredKeys
