import Slate.Text.Printable

/-! # Quoted text

Text between double quotes, with escapes for what could not be read back and for what does not
print.
-/

namespace Slate
set_option autoImplicit false

def hexEscape (c : Char) : String :=
  "\\u\x7b" ++ String.ofList (Nat.toDigits 16 c.toNat) ++ "\x7d"

def escaped (c : Char) : String :=
  if c = '\x00' then "\\0"
  else if c = '\t' then "\\t"
  else if c = '\r' then "\\r"
  else if c = '\n' then "\\n"
  else if c = '\\' then "\\\\"
  else if c = '"' then "\\\""
  else if isPrintable c then c.toString
  else hexEscape c

def quoted (text : String) : String := "\"" ++ String.join (text.toList.map escaped) ++ "\""

end Slate
