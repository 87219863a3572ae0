import NamedFunctions.Text.Numeral
import NamedFunctions.Text.Printable

/-!
# Quoted text

A text between double quotes in which quotes, backslashes and characters that are not printable are
escaped, so that it can stand inside a message.
-/

namespace NamedFunctions.Text

/-- A character as it is written between double quotes: the short escapes for quote, backslash, NUL, tab, line
feed and carriage return, the number for another character that is not printable.
`nfn-core/src/name:266–272`. -/
def escaped (c : Char) : String :=
  if c = '"' then "\\\""
  else if c = '\\' then "\\\\"
  else if c = '\x00' then "\\0"
  else if c = '\t' then "\\t"
  else if c = '\n' then "\\n"
  else if c = '\r' then "\\r"
  else if isPrintable c then c.toString
  else "\\u\x7b" ++ hexDigits c.toNat ++ "\x7d"

/-- A text between double quotes. `nfn-core/src/name:266–272`. -/
def quoted (text : String) : String :=
  "\"" ++ String.join (text.toList.map escaped) ++ "\""

end NamedFunctions.Text
