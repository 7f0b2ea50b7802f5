import TouchAutomata.Data.Basic

/-!
# Reading JSON

A reader for the grammar of RFC 8259. Each function reads from the front of a text and gives
what it read with the rest. Strings are read in two steps: first their pieces, by the grammar
alone, then their text, which needs the surrogates among the pieces to pair up. Lists and
records are read with a number that bounds the calls; twice the length of the text is always
enough, since of two calls in a row one takes a character.
-/

set_option autoImplicit false

namespace TouchAutomata.Json

/-- The blanks between the parts of a document. -/
def isBlank (c : Char) : Bool := c = ' ' || c = '\n' || c = '\t' || c = '\r'

/-- The text after leading blanks. -/
def skipBlanks (cs : List Char) : List Char := cs.dropWhile isBlank

/-- The value of a hexadecimal digit. -/
def hexValue? (c : Char) : Option Nat :=
  if c.isDigit then some (c.toNat - '0'.toNat)
  else if 'a' ≤ c ∧ c ≤ 'f' then some (c.toNat - 'a'.toNat + 10)
  else if 'A' ≤ c ∧ c ≤ 'F' then some (c.toNat - 'A'.toNat + 10)
  else none

/-- The character that a one-letter escape stands for. -/
def unescape? : Char → Option Char
  | '"' => some '"'
  | '\\' => some '\\'
  | '/' => some '/'
  | 'b' => some '\x08'
  | 'f' => some '\x0c'
  | 'n' => some '\n'
  | 'r' => some '\r'
  | 't' => some '\t'
  | _ => none

/-- A piece of a string. -/
inductive Piece where
  | char (c : Char)
  /-- A 16-bit code unit, written by its number. -/
  | codeUnit (n : Nat)
  deriving DecidableEq, Repr

/-- Where in a string the reader is. -/
inductive Place where
  | outside
  /-- Behind a backslash. -/
  | escaped
  /-- Among the digits of a code unit: how many are left, and the value of those before. -/
  | digits (left value : Nat)
  deriving DecidableEq, Repr

/-- Puts a piece in front of those that were read. -/
def consPiece (p : Piece) (read : List Piece × List Char) : List Piece × List Char :=
  (p :: read.1, read.2)

/-- The pieces of a string up to its closing quote. -/
def readPieces : Place → List Char → Option (List Piece × List Char)
  | _, [] => none
  | .outside, c :: cs =>
    if c = '"' then some ([], cs)
    else if c = '\\' then readPieces .escaped cs
    else if c.toNat < 0x20 then none
    else (readPieces .outside cs).map (consPiece (.char c))
  | .escaped, c :: cs =>
    if c = 'u' then readPieces (.digits 4 0) cs
    else
      match unescape? c with
      | some d => (readPieces .outside cs).map (consPiece (.char d))
      | none => none
  | .digits left value, c :: cs =>
    match hexValue? c with
    | none => none
    | some d =>
      if left ≤ 1 then (readPieces .outside cs).map (consPiece (.codeUnit (16 * value + d)))
      else readPieces (.digits (left - 1) (16 * value + d)) cs

/-- Whether a code unit is the first half of a pair. -/
def isHighSurrogate (n : Nat) : Bool := 0xD800 ≤ n && n < 0xDC00

/-- Whether a code unit is the second half of a pair. -/
def isLowSurrogate (n : Nat) : Bool := 0xDC00 ≤ n && n < 0xE000

/-- The characters of the pieces, if the surrogates among them pair up. -/
def chars? : List Piece → Option (List Char)
  | [] => some []
  | .char c :: ps => (chars? ps).map (c :: ·)
  | .codeUnit n :: ps =>
    if isLowSurrogate n then none
    else if isHighSurrogate n then
      match ps with
      | .codeUnit m :: ps =>
        if isLowSurrogate m then
          (chars? ps).map (Char.ofNat (0x10000 + (n - 0xD800) * 0x400 + (m - 0xDC00)) :: ·)
        else none
      | _ => none
    else (chars? ps).map (Char.ofNat n :: ·)

/-- A string behind its opening quote. -/
def readString (cs : List Char) : Option (Option String × List Char) :=
  (readPieces .outside cs).map fun (pieces, rest) => ((chars? pieces).map String.ofList, rest)

/-- A run of digits that may not be empty. -/
def readDigits (cs : List Char) : Option (List Char × List Char) :=
  match cs.span Char.isDigit with
  | ([], _) => none
  | read => some read

/-- The digits behind a decimal point, with the point, or nothing. -/
def readFraction : List Char → Option (List Char × List Char)
  | '.' :: cs => (readDigits cs).map fun (ds, rest) => ('.' :: ds, rest)
  | cs => some ([], cs)

/-- An exponent with its letter and sign, or nothing. -/
def readExponent : List Char → Option (List Char × List Char)
  | c :: cs =>
    if c = 'e' ∨ c = 'E' then
      match cs with
      | s :: cs' =>
        if s = '+' ∨ s = '-' then
          (readDigits cs').map fun (ds, rest) => (c :: s :: ds, rest)
        else (readDigits cs).map fun (ds, rest) => (c :: ds, rest)
      | [] => none
    else some ([], c :: cs)
  | [] => some ([], [])

/-- A number. One without fraction and exponent is an integer, except for minus zero. -/
def readNumber (cs : List Char) : Option (Data × List Char) := do
  let (sign, cs) := match cs with
    | '-' :: cs => (['-'], cs)
    | cs => ([], cs)
  let (digits, cs) ← readDigits cs
  if digits.head? = some '0' ∧ digits.length ≠ 1 then none
  else
    let (fraction, cs) ← readFraction cs
    let (exponent, cs) ← readExponent cs
    let value : Int := Nat.ofDigitChars 10 digits 0
    let data :=
      if fraction ≠ [] ∨ exponent ≠ [] ∨ (sign ≠ [] ∧ value = 0) then
        Data.number (String.ofList (sign ++ digits ++ fraction ++ exponent))
      else .integer (if sign = [] then value else -value)
    some (data, cs)

/-- One of the three words. -/
def readWord : List Char → Option (Data × List Char)
  | 'n' :: 'u' :: 'l' :: 'l' :: cs => some (.null, cs)
  | 't' :: 'r' :: 'u' :: 'e' :: cs => some (.boolean true, cs)
  | 'f' :: 'a' :: 'l' :: 's' :: 'e' :: cs => some (.boolean false, cs)
  | _ => none

mutual

/-- A piece of data, with blanks before it. -/
def readData : Nat → List Char → Option (Data × List Char)
  | 0, _ => none
  | calls + 1, cs =>
    match skipBlanks cs with
    | [] => none
    | c :: rest =>
      if c = '"' then (readString rest).map fun (text, rest) => (.string text, rest)
      else if c = '[' then
        match skipBlanks rest with
        | ']' :: rest => some (.list [], rest)
        | _ => (readItems calls rest).map fun (items, rest) => (.list items, rest)
      else if c = '\x7b' then
        match skipBlanks rest with
        | '\x7d' :: rest => some (.record [], rest)
        | _ => (readFields calls rest).map fun (fields, rest) => (.record fields, rest)
      else if c = '-' ∨ c.isDigit then readNumber (c :: rest)
      else readWord (c :: rest)

/-- The items of a list up to its closing bracket. -/
def readItems : Nat → List Char → Option (List Data × List Char)
  | 0, _ => none
  | calls + 1, cs =>
    match readData calls cs with
    | none => none
    | some (item, rest) =>
      match skipBlanks rest with
      | ',' :: rest => (readItems calls rest).map fun (items, rest) => (item :: items, rest)
      | ']' :: rest => some ([item], rest)
      | _ => none

/-- The fields of a record up to its closing brace. -/
def readFields : Nat → List Char → Option (List (Option String × Data) × List Char)
  | 0, _ => none
  | calls + 1, cs =>
    match skipBlanks cs with
    | '"' :: rest =>
      match readString rest with
      | none => none
      | some (name, rest) =>
        match skipBlanks rest with
        | ':' :: rest =>
          match readData calls rest with
          | none => none
          | some (value, rest) =>
            match skipBlanks rest with
            | ',' :: rest =>
              (readFields calls rest).map fun (fields, rest) => ((name, value) :: fields, rest)
            | '\x7d' :: rest => some ([(name, value)], rest)
            | _ => none
        | _ => none
    | _ => none

end

/-- A list that stands for a record holds its fields and nothing else. -/
def surplus : Data.Surplus := .refused

/-- The data of a JSON text: one piece of data with blanks around it. -/
def read (text : String) : Option Data :=
  match readData (2 * text.length + 2) text.toList with
  | some (data, rest) => if skipBlanks rest = [] then some data else none
  | none => none

end TouchAutomata.Json
