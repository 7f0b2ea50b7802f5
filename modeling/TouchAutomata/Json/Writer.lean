import TouchAutomata.Data.Basic

/-!
# Writing JSON

Data is written in one of two styles: without any blanks, or with each item and each field on a
line of its own, indented by two blanks for each level. Empty lists and records take no line in
either style.
-/

set_option autoImplicit false

namespace TouchAutomata.Json

/-- How the parts of a document are set apart. -/
inductive Style where
  /-- Nothing between the parts. -/
  | compact
  /-- A line for each part. -/
  | indented
  deriving DecidableEq, Repr

/-- What stands before a part at some depth. -/
def Style.gap : Style → Nat → List Char
  | compact, _ => []
  | indented, depth => '\n' :: List.replicate (2 * depth) ' '

/-- What stands between a name and its value. -/
def Style.colon : Style → List Char
  | compact => [':']
  | indented => [':', ' ']

/-- The digit of a number below 16, in lower case. -/
def hexDigit (n : Nat) : Char :=
  (Nat.toDigits 16 n).headD '0'

/-- One character inside a string. -/
def escape (c : Char) : List Char :=
  if c = '"' then ['\\', '"']
  else if c = '\\' then ['\\', '\\']
  else if c = '\x08' then ['\\', 'b']
  else if c = '\t' then ['\\', 't']
  else if c = '\n' then ['\\', 'n']
  else if c = '\x0c' then ['\\', 'f']
  else if c = '\r' then ['\\', 'r']
  else if c.toNat < 0x20 then
    ['\\', 'u', '0', '0', hexDigit (c.toNat / 16), hexDigit (c.toNat % 16)]
  else [c]

/-- A string between quotes. One without text is written as half of a surrogate pair. -/
def quoted : Option String → List Char
  | some s => '"' :: s.toList.flatMap escape ++ ['"']
  | none => "\"\\ud800\"".toList

mutual

/-- The characters of a piece of data at some depth. A number without a value is written as
the absence of one. -/
def write (style : Style) (depth : Nat) : Data → List Char
  | .null => "null".toList
  | .boolean true => "true".toList
  | .boolean false => "false".toList
  | .integer n => (toString n).toList
  | .number literal => literal.toList
  | .unreadable => "null".toList
  | .string text => quoted text
  | .list [] => ['[', ']']
  | .list (item :: items) =>
    '[' :: style.gap (depth + 1) ++ write style (depth + 1) item ++
      writeItems style (depth + 1) items ++ style.gap depth ++ [']']
  | .record [] => ['\x7b', '\x7d']
  | .record ((name, value) :: fields) =>
    '\x7b' :: style.gap (depth + 1) ++ quoted name ++ style.colon ++
      write style (depth + 1) value ++ writeFields style (depth + 1) fields ++
      style.gap depth ++ ['\x7d']

/-- The items after the first of a list. -/
def writeItems (style : Style) (depth : Nat) : List Data → List Char
  | [] => []
  | item :: items =>
    ',' :: style.gap depth ++ write style depth item ++ writeItems style depth items

/-- The fields after the first of a record. -/
def writeFields (style : Style) (depth : Nat) : List (Option String × Data) → List Char
  | [] => []
  | (name, value) :: fields =>
    ',' :: style.gap depth ++ quoted name ++ style.colon ++ write style depth value ++
      writeFields style depth fields

end

/-- The JSON text of a piece of data. -/
def render (style : Style) (data : Data) : String := String.ofList (write style 0 data)

end TouchAutomata.Json
