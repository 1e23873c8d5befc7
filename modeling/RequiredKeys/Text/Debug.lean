import RequiredKeys.Text.Ascii
import RequiredKeys.Text.Shapeless

/-!
# Texts in log lines

A text of the program's own is logged between quotes, so that it can be told
from the line around it.  Quotes, backslashes and the usual controls are
escaped by one letter, and every other character that would not show is given by
its number.
-/

namespace RequiredKeys
namespace Debug

/-- A character given by its number. -/
def numbered (c : Char) : String :=
  "\\u\x7b" ++ Ascii.hexText c.toNat ++ "\x7d"

/-- A character inside quotes. -/
def charText (c : Char) : String :=
  match c with
  | '\x00' => "\\0"
  | '\t' => "\\t"
  | '\n' => "\\n"
  | '\r' => "\\r"
  | '"' => "\\\""
  | '\\' => "\\\\"
  | _ =>
    if c.toNat < 0x20 then numbered c
    else if c.toNat < 0x7f then String.singleton c
    else if Shapeless.contains c then numbered c
    else String.singleton c

/-- A text between quotes. -/
def quoted (text : String) : String :=
  "\"" ++ String.join (text.toList.map charText) ++ "\""

end Debug
end RequiredKeys
