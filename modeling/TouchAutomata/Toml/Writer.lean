import TouchAutomata.Toml.Strings

/-!
# Writing TOML strings

A string is written in the kind of string that shows it best: as a basic string if that takes
no escapes, else as a literal string, else as one of these over several lines, and with escapes
only if no other way is left. `StringKind.ofText` makes the choice.
-/

set_option autoImplicit false

namespace TouchAutomata.Toml

/-- The kinds of strings. -/
inductive StringKind where
  | basic
  | literal
  | multiBasic
  | multiLiteral
  deriving DecidableEq, Repr

/-- Whether a string has a character that only an escape can show. -/
def needsEscape (cs : List Char) : Bool := cs.any fun c => isControl c && c ≠ '\n'

/-- The length of the longest run of a character; `run` is the length of the one before. -/
def longestRun (delimiter : Char) (run : Nat) : List Char → Nat
  | [] => run
  | c :: cs =>
    if c = delimiter then longestRun delimiter (run + 1) cs
    else max run (longestRun delimiter 0 cs)

namespace StringKind

/-- The kind in which a string is written. -/
def ofText (cs : List Char) : StringKind :=
  let hasLineFeed := cs.contains '\n'
  let quotes := longestRun '"' 0 cs
  let apostrophes := longestRun '\'' 0 cs
  if !needsEscape cs && !cs.contains '\\' && quotes = 0 && !hasLineFeed then basic
  else if !needsEscape cs && apostrophes = 0 && !hasLineFeed then literal
  else if !needsEscape cs && !cs.contains '\\' && quotes ≤ 2 then multiBasic
  else if !needsEscape cs && apostrophes ≤ 2 then multiLiteral
  else if hasLineFeed then multiBasic
  else basic

/-- What stands at both ends of a string. -/
def delimiter : StringKind → List Char
  | basic => ['"']
  | literal => ['\'']
  | multiBasic => ['"', '"', '"']
  | multiLiteral => ['\'', '\'', '\'']

/-- Whether a kind of string spans lines. -/
def isMulti : StringKind → Bool
  | multiBasic | multiLiteral => true
  | basic | literal => false

/-- Whether a kind of string has escapes. -/
def isBasic : StringKind → Bool
  | basic | multiBasic => true
  | literal | multiLiteral => false

end StringKind

/-- The digit of a number below 16, in upper case. -/
def upperHexDigit (n : Nat) : Char := ((Nat.toDigits 16 n).headD '0').toUpper

/-- One character other than a quote inside a basic string. -/
def escapeChar (multi : Bool) (c : Char) : List Char :=
  if c = '\x08' then ['\\', 'b']
  else if c = '\t' then ['\\', 't']
  else if c = '\n' then if multi then ['\n'] else ['\\', 'n']
  else if c = '\x0c' then ['\\', 'f']
  else if c = '\r' then ['\\', 'r']
  else if c = '\\' then ['\\', '\\']
  else if isControl c then
    ['\\', 'u', '0', '0', upperHexDigit (c.toNat / 16), upperHexDigit (c.toNat % 16)]
  else [c]

/-- The characters of a basic string. Over several lines two quotes in a row need no escape;
`quotes` counts those before. -/
def escapeBasic (multi : Bool) (quotes : Nat) : List Char → List Char
  | [] => []
  | c :: cs =>
    if c = '"' then
      if multi ∧ quotes < 2 then '"' :: escapeBasic multi (quotes + 1) cs
      else '\\' :: '"' :: escapeBasic multi 0 cs
    else escapeChar multi c ++ escapeBasic multi 0 cs

/-- The characters of a string in a kind of string, with its delimiters. Over several lines a
string with a line feed begins on a line of its own. -/
def writeAs (kind : StringKind) (cs : List Char) : List Char :=
  kind.delimiter ++
    (if kind.isMulti && cs.contains '\n' then ['\n'] else []) ++
    (if kind.isBasic then escapeBasic kind.isMulti 0 cs else cs) ++
    kind.delimiter

/-- The TOML text of a string. -/
def quoted (s : String) : String :=
  String.ofList (writeAs (StringKind.ofText s.toList) s.toList)

end TouchAutomata.Toml
