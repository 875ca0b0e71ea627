-- Text between double quotes, as a message shows it. What could not be seen, or
-- could be taken for something else, is escaped.
import CaplOutline.Text.Hidden

namespace CaplOutline.Text

/-- An escape with the code point in hexadecimal digits. -/
def unicodeEscape (c : Char) : String :=
  "\\u\x7b" ++ String.ofList (Nat.toDigits 16 c.toNat) ++ "\x7d"

def escape (c : Char) : String :=
  match c with
  | '\x00' => "\\0"
  | '\t' => "\\t"
  | '\n' => "\\n"
  | '\r' => "\\r"
  | '"' => "\\\""
  | '\\' => "\\\\"
  | _ => if isHidden c then unicodeEscape c else c.toString

def quoted (text : String) : String :=
  "\"" ++ String.join (text.toList.map escape) ++ "\""

end CaplOutline.Text
