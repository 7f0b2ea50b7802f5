/-!
# Strings in TOML

There are four kinds of strings: basic ones between quotes and literal ones between
apostrophes, each on one line or, with the delimiter written three times, over several lines.
Basic strings have escapes, literal ones have none. Each reader begins behind the opening
delimiter and gives the characters with the rest of the text.
-/

set_option autoImplicit false

namespace TouchAutomata.Toml

/-- The blanks within a line. -/
def isBlank (c : Char) : Bool := c = ' ' || c = '\t'

/-- Control characters, which no string and no comment may hold. The tab is none of them. -/
def isControl (c : Char) : Bool := (c.toNat < 0x20 && c ≠ '\t') || c = '\x7f'

/-- Whether a text begins with a line feed; a carriage return must stand before one. -/
def atLineFeed : List Char → Bool
  | '\n' :: _ => true
  | _ => false

/-- The value of a hexadecimal digit. -/
def hexValue? (c : Char) : Option Nat :=
  if c.isDigit then some (c.toNat - '0'.toNat)
  else if 'a' ≤ c ∧ c ≤ 'f' then some (c.toNat - 'a'.toNat + 10)
  else if 'A' ≤ c ∧ c ≤ 'F' then some (c.toNat - 'A'.toNat + 10)
  else none

/-- The character that a one-letter escape stands for. -/
def unescape? : Char → Option Char
  | 'b' => some '\x08'
  | 't' => some '\t'
  | 'n' => some '\n'
  | 'f' => some '\x0c'
  | 'r' => some '\r'
  | 'e' => some '\x1b'
  | '"' => some '"'
  | '\\' => some '\\'
  | _ => none

/-- How many digits follow an escape by code point. -/
def escapeDigits? : Char → Option Nat
  | 'x' => some 2
  | 'u' => some 4
  | 'U' => some 8
  | _ => none

/-- The character of a code point. Surrogates have none. -/
def scalar? (n : Nat) : Option Char :=
  if h : n.isValidChar then some (Char.ofNatAux n h) else none

/-- Where in a basic string the reader is. -/
inductive Place where
  | outside
  /-- Behind a backslash. -/
  | escaped
  /-- Among the digits of a code point: how many are left, and the value of those before. -/
  | digits (left value : Nat)
  /-- Among the blanks between a backslash and the end of its line. -/
  | lineEnd
  /-- Among the blanks and line ends after such a line, which do not count. -/
  | joined
  deriving DecidableEq, Repr

/-- Puts a character in front of those that were read. -/
def consChar (c : Char) (read : List Char × List Char) : List Char × List Char :=
  (c :: read.1, read.2)

/-- A basic string on one line. -/
def readBasic : Place → List Char → Option (List Char × List Char)
  | _, [] => none
  | .escaped, c :: cs =>
    match escapeDigits? c with
    | some n => readBasic (.digits n 0) cs
    | none =>
      match unescape? c with
      | some d => (readBasic .outside cs).map (consChar d)
      | none => none
  | .digits left value, c :: cs =>
    match hexValue? c with
    | none => none
    | some d =>
      if left ≤ 1 then
        match scalar? (16 * value + d) with
        | some e => (readBasic .outside cs).map (consChar e)
        | none => none
      else readBasic (.digits (left - 1) (16 * value + d)) cs
  | _, c :: cs =>
    if c = '"' then some ([], cs)
    else if c = '\\' then readBasic .escaped cs
    else if isControl c then none
    else (readBasic .outside cs).map (consChar c)

/-- The end of a string with three delimiters, behind these: up to two more belong to the
string. -/
def closeMulti (delimiter : Char) : List Char → List Char × List Char
  | c :: d :: cs =>
    if c = delimiter then
      if d = delimiter then ([delimiter, delimiter], cs) else ([delimiter], d :: cs)
    else ([], c :: d :: cs)
  | [c] => if c = delimiter then ([delimiter], []) else ([], [c])
  | [] => ([], [])

/-- Whether a text begins with two given characters of one kind. -/
def beginsTwice (delimiter : Char) : List Char → Bool
  | c :: d :: _ => c = delimiter && d = delimiter
  | _ => false

/-- A basic string over several lines. -/
def readMultiBasic : Place → List Char → Option (List Char × List Char)
  | _, [] => none
  | .escaped, c :: cs =>
    if isBlank c then readMultiBasic .lineEnd cs
    else if c = '\n' then readMultiBasic .joined cs
    else if c = '\r' then if atLineFeed cs then readMultiBasic .joined cs else none
    else
      match escapeDigits? c with
      | some n => readMultiBasic (.digits n 0) cs
      | none =>
        match unescape? c with
        | some d => (readMultiBasic .outside cs).map (consChar d)
        | none => none
  | .digits left value, c :: cs =>
    match hexValue? c with
    | none => none
    | some d =>
      if left ≤ 1 then
        match scalar? (16 * value + d) with
        | some e => (readMultiBasic .outside cs).map (consChar e)
        | none => none
      else readMultiBasic (.digits (left - 1) (16 * value + d)) cs
  | .lineEnd, c :: cs =>
    if isBlank c then readMultiBasic .lineEnd cs
    else if c = '\n' then readMultiBasic .joined cs
    else if c = '\r' then if atLineFeed cs then readMultiBasic .joined cs else none
    else none
  | place, c :: cs =>
    if place = .joined ∧ (isBlank c ∨ c = '\n') then readMultiBasic .joined cs
    else if place = .joined ∧ c = '\r' then
      if atLineFeed cs then readMultiBasic .joined cs else none
    else if c = '"' then
      if beginsTwice '"' cs then some (closeMulti '"' (cs.drop 2))
      else (readMultiBasic .outside cs).map (consChar c)
    else if c = '\\' then readMultiBasic .escaped cs
    else if c = '\r' then
      if atLineFeed cs then (readMultiBasic .outside cs).map (consChar c) else none
    else if isControl c ∧ c ≠ '\n' then none
    else (readMultiBasic .outside cs).map (consChar c)

/-- A literal string on one line. -/
def readLiteral : List Char → Option (List Char × List Char)
  | [] => none
  | c :: cs =>
    if c = '\'' then some ([], cs)
    else if isControl c then none
    else (readLiteral cs).map (consChar c)

/-- A literal string over several lines. -/
def readMultiLiteral : List Char → Option (List Char × List Char)
  | [] => none
  | c :: cs =>
    if c = '\'' then
      if beginsTwice '\'' cs then some (closeMulti '\'' (cs.drop 2))
      else (readMultiLiteral cs).map (consChar c)
    else if c = '\r' then
      if atLineFeed cs then (readMultiLiteral cs).map (consChar c) else none
    else if isControl c ∧ c ≠ '\n' then none
    else (readMultiLiteral cs).map (consChar c)

/-- The text behind a line end right after three opening delimiters, which does not count. -/
def skipFirstLineEnd : List Char → List Char
  | '\n' :: cs => cs
  | '\r' :: '\n' :: cs => cs
  | cs => cs

/-- A string of any kind, with its opening delimiter. -/
def readString : List Char → Option (List Char × List Char)
  | '"' :: cs =>
    if beginsTwice '"' cs then readMultiBasic .outside (skipFirstLineEnd (cs.drop 2))
    else readBasic .outside cs
  | '\'' :: cs =>
    if beginsTwice '\'' cs then readMultiLiteral (skipFirstLineEnd (cs.drop 2))
    else readLiteral cs
  | _ => none

end TouchAutomata.Toml
