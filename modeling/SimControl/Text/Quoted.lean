/-
Text between double quotes.

Quotes and backslashes get a backslash before them, and a character without a shape
of its own is written as an escape.
-/
import SimControl.Text.Unprintable

namespace SimControl
namespace Text

/-- A code point in hexadecimal digits between braces. -/
def codeEscape (c : Char) : String :=
  "\\u\x7b" ++ String.ofList (Nat.toDigits 16 c.toNat) ++ "\x7d"

def escape (c : Char) : String :=
  match c with
  | '\x00' => "\\0"
  | '\t' => "\\t"
  | '\r' => "\\r"
  | '\n' => "\\n"
  | '\\' => "\\\\"
  | '"' => "\\\""
  | '\'' => "\\'"
  | c => if isUnprintable c then codeEscape c else String.singleton c

def quoted (text : String) : String := "\"" ++ String.join (text.toList.map escape) ++ "\""

end Text
end SimControl
