import RequiredKeys.Json.Value
import RequiredKeys.Text.Ascii

/-!
# Writing JSON

Values are written without any white space.  In a string the quote, the
backslash and the characters below U+0020 are escaped, the common ones by a
letter and the others by their number; every other character stands for itself.
So a written value holds no line feed, and a line can hold a value.
-/

namespace RequiredKeys
namespace Json

namespace Writer

/-- One hexadecimal digit, in lower case. -/
def hexDigit (n : Nat) : Char :=
  Nat.digitChar n

/-- The spelling of one character inside a string. -/
def charText (c : Char) : List Char :=
  match c with
  | '"' => ['\\', '"']
  | '\\' => ['\\', '\\']
  | '\x08' => ['\\', 'b']
  | '\x0c' => ['\\', 'f']
  | '\n' => ['\\', 'n']
  | '\r' => ['\\', 'r']
  | '\t' => ['\\', 't']
  | _ =>
    if c.toNat < 0x20 then
      ['\\', 'u', '0', '0', hexDigit (c.toNat / 16), hexDigit (c.toNat % 16)]
    else [c]

/-- A string between its quotes. -/
def stringText (s : String) : String :=
  String.ofList ('"' :: s.toList.flatMap charText ++ ['"'])

end Writer

open Writer

mutual

/-- The text of a value. -/
def compact : Json → String
  | null => "null"
  | bool true => "true"
  | bool false => "false"
  | number text => text
  | string value => stringText value
  | array elements => "[" ++ compactElements elements ++ "]"
  | object members => "\x7b" ++ compactMembers members ++ "\x7d"

/-- The elements of an array, with commas between them. -/
def compactElements : List Json → String
  | [] => ""
  | [last] => last.compact
  | element :: rest => element.compact ++ "," ++ compactElements rest

/-- The members of an object, with commas between them. -/
def compactMembers : List (String × Json) → String
  | [] => ""
  | [(key, last)] => stringText key ++ ":" ++ last.compact
  | (key, value) :: rest =>
    stringText key ++ ":" ++ value.compact ++ "," ++ compactMembers rest

end

end Json
end RequiredKeys
