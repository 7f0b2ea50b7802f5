import TouchAutomata.Text.Hidden

/-!
# Quoted text in messages

Messages show a piece of the user's text between double quotes. Inside, a quote and a backslash
get a backslash, four control characters have short names, and every other character that is
hidden is written by its code point, so that the reader sees each character there is.
-/

set_option autoImplicit false

namespace TouchAutomata.Text

/-- The hexadecimal digits of a code point, lower case and without leading zeros. -/
def codePoint (c : Char) : String :=
  String.ofList (Nat.toDigits 16 c.toNat)

/-- How one character stands inside quoted text. -/
def quoteChar (c : Char) : String :=
  if c = '"' then "\\\""
  else if c = '\\' then "\\\\"
  else if c = '\t' then "\\t"
  else if c = '\n' then "\\n"
  else if c = '\r' then "\\r"
  else if c = '\x00' then "\\0"
  else if isHidden c then "\\u\x7b" ++ codePoint c ++ "\x7d"
  else c.toString

/-- The text between double quotes, each character visible. -/
def quoted (s : String) : String :=
  "\"" ++ String.join (s.toList.map quoteChar) ++ "\""

end TouchAutomata.Text
