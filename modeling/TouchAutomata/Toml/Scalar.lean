import TouchAutomata.Data.Basic
import TouchAutomata.Toml.Strings

/-!
# Numbers, truth values and moments in TOML

A scalar that is no string is a run of characters up to the next mark. Its first characters say
what it is meant to be. Integers may be written in base ten, sixteen, eight or two, and between
two digits of a number a low line may stand. The form of a number is not the same as its value:
an integer has a value if its digits are those of its base and it fits into 128 bits, another
number if it is not too large for a double. Dates and times must be those of the calendar and
the clock.
-/

set_option autoImplicit false

namespace TouchAutomata.Toml

/-- Whether every low line stands between two digits; `after` says whether a digit stands before
the text. -/
def isGrouped (isDigit : Char → Bool) (after : Bool) : List Char → Bool
  | [] => true
  | c :: cs =>
    if c = '_' then after && cs.head?.any isDigit && isGrouped isDigit false cs
    else isGrouped isDigit (isDigit c) cs

/-- The text without low lines. -/
def ungroup (cs : List Char) : List Char := cs.filter (· ≠ '_')

/-- Decimal digits, at least one, without the low lines between them. -/
def readDigits (cs : List Char) : Option (List Char) :=
  let digits := ungroup cs
  if isGrouped Char.isDigit false cs ∧ digits ≠ [] ∧ digits.all Char.isDigit then some digits
  else none

/-- Whether a zero stands before other characters. -/
def hasLeadingZero (cs : List Char) : Bool := cs.head? = some '0' && cs.length ≠ 1

/-- Whether a character is a digit in some base. -/
def isDigitIn (base : Nat) (c : Char) : Bool := (hexValue? c).any (· < base)

/-- The value of digits in some base. -/
def valueInBase (base : Nat) (ds : List Char) : Nat :=
  ds.foldl (fun n c => base * n + (hexValue? c).getD 0) 0

/-- Whether an integer fits into 128 bits, with a sign or without one. -/
def fitsInteger (n : Int) : Bool := -Numeral.bitRange 127 ≤ n && n < Numeral.bitRange 128

/-- The integer that a sign and the characters behind it are meant to be. Low lines must stand
between digits of any base; digits of another base leave the integer without a value. -/
def readInteger (negative : Bool) (base : Nat) (cs : List Char) : Option Data :=
  if isGrouped (isDigitIn 16) false cs then
    let digits := ungroup cs
    let size : Int := valueInBase base digits
    let value := if negative then -size else size
    some <|
      if digits ≠ [] ∧ digits.all (isDigitIn base) ∧ fitsInteger value then .integer value
      else .unreadable
  else none

/-- The integer that characters behind the mark of a base are. -/
def readInBase (base : Nat) (cs : List Char) : Option Data :=
  if (ungroup cs).all (isDigitIn base) then readInteger false base cs else none

/-- The run without a sign before it. -/
def dropSign : List Char → List Char
  | '+' :: cs => cs
  | '-' :: cs => cs
  | cs => cs

/-- Whether `m · 10 ^ e` is rounded to a finite double. -/
def fitsDouble (m : Nat) (e : Int) : Bool :=
  let size := (Nat.toDigits 10 m).length + e
  let bound := Numeral.bitRange 1024 - Numeral.bitRange 970
  if m = 0 ∨ size < 309 then true
  else if size > 309 then false
  else if e ≥ 0 then m * Nat.pow 10 e.toNat < bound
  else m < bound * Nat.pow 10 (-e).toNat

/-- Whether a number with a fraction or an exponent is small enough for a double; `none` if the
characters are no such number. A sign must have been dropped. -/
def decimalFits? (cs : List Char) : Option Bool := do
  let isMark (c : Char) := c = 'e' || c = 'E'
  let (mantissa, exponent) := cs.span fun c => !isMark c
  let (whole, fraction) := mantissa.span (· ≠ '.')
  let wholeDigits ← (readDigits whole).filter (!hasLeadingZero ·)
  let fractionDigits ←
    match fraction with
    | [] => some []
    | _ :: ds => readDigits ds
  let power ←
    match exponent with
    | [] => some (0 : Int)
    | _ :: ds =>
      (readDigits (dropSign ds)).map fun digits =>
        let n : Int := valueInBase 10 digits
        if ds.head? = some '-' then -n else n
  some <| fitsDouble (valueInBase 10 (wholeDigits ++ fractionDigits))
    (power - fractionDigits.length)

/-- The number in base ten that a run of characters is meant to be. Behind its first digits a
point or an exponent makes it a decimal number; otherwise it is an integer, and a low line has
to follow these digits. -/
def readDecimal (run : List Char) : Option Data :=
  let cs := dropSign run
  let tail := cs.dropWhile Char.isDigit
  if tail.contains ' ' then none
  else if tail.any fun c => c = '.' || c = 'e' || c = 'E' then
    (decimalFits? cs).map fun fits =>
      if fits then .number (String.ofList run) else .unreadable
  else if tail.length = cs.length ∨ hasLeadingZero cs then none
  else if tail = [] ∨ tail.head? = some '_' then readInteger (run.head? = some '-') 10 cs
  else none

/-- The number that a run of characters is meant to be. -/
def readNumber : List Char → Option Data
  | '0' :: 'x' :: cs => readInBase 16 cs
  | '0' :: 'o' :: cs => readInBase 8 cs
  | '0' :: 'b' :: cs => readInBase 2 cs
  | cs =>
    if dropSign cs = ['i', 'n', 'f'] ∨ dropSign cs = ['n', 'a', 'n'] then
      some (.number (String.ofList cs))
    else readDecimal cs

/-- A number of exactly so many decimal digits. -/
def readFixed (digits : Nat) (cs : List Char) : Option (Nat × List Char) :=
  let ds := cs.take digits
  if ds.length = digits ∧ ds.all Char.isDigit then some (valueInBase 10 ds, cs.drop digits)
  else none

/-- The text after one expected character. -/
def expect (c : Char) : List Char → Option (List Char)
  | d :: cs => if d = c then some cs else none
  | [] => none

/-- How many days a month has. -/
def daysInMonth (year month : Nat) : Nat :=
  if month = 2 then
    if year % 4 = 0 ∧ (year % 100 ≠ 0 ∨ year % 400 = 0) then 29 else 28
  else if month = 4 ∨ month = 6 ∨ month = 9 ∨ month = 11 then 30
  else 31

/-- The text after a date of the calendar. -/
def readDate (cs : List Char) : Option (List Char) := do
  let (year, cs) ← readFixed 4 cs
  let cs ← expect '-' cs
  let (month, cs) ← readFixed 2 cs
  let cs ← expect '-' cs
  let (day, cs) ← readFixed 2 cs
  if 1 ≤ month ∧ month ≤ 12 ∧ 1 ≤ day ∧ day ≤ daysInMonth year month then some cs else none

/-- The text after the fraction of a second, if there is one. -/
def readSecondFraction : List Char → Option (List Char)
  | '.' :: cs =>
    match cs with
    | c :: _ => if c.isDigit then some (cs.dropWhile Char.isDigit) else none
    | [] => none
  | cs => some cs

/-- The text after a time of the clock. The seconds may be left out. -/
def readTime (cs : List Char) : Option (List Char) := do
  let (hour, cs) ← readFixed 2 cs
  let cs ← expect ':' cs
  let (minute, cs) ← readFixed 2 cs
  if hour > 23 ∨ minute > 59 then none
  else
    match cs with
    | ':' :: cs => do
      let (second, cs) ← readFixed 2 cs
      if second > 60 then none else readSecondFraction cs
    | cs => some cs

/-- The text after the offset of a time from the reference time, if there is one. -/
def readOffset : List Char → Option (List Char)
  | c :: cs =>
    if c = 'Z' ∨ c = 'z' then some cs
    else if c = '+' ∨ c = '-' then do
      let (hours, cs) ← readFixed 2 cs
      let cs ← expect ':' cs
      let (minutes, cs) ← readFixed 2 cs
      if hours ≤ 23 ∧ minutes ≤ 59 then some cs else none
    else some (c :: cs)
  | [] => some []

/-- Whether a run of characters is a date, a time, or both. A blank may separate them. -/
def isMoment (cs : List Char) : Bool :=
  let rest :=
    match readDate cs with
    | none => readTime cs
    | some [] => some []
    | some (c :: rest) =>
      if c = 'T' ∨ c = 't' ∨ c = ' ' then (readTime rest).bind readOffset else none
  rest = some []

/-- The name of the only field of the record that stands for a moment. -/
def momentField : String := "datetime"

/-- The value of a run of characters. -/
def readRun (run : List Char) : Option Data :=
  if run = "true".toList then some (.boolean true)
  else if run = "false".toList then some (.boolean false)
  else
    match readNumber run with
    | some number => some number
    | none =>
      if isMoment run then some (.ofFields [(momentField, .ofText (String.ofList run))]) else none

/-- The marks at which a run of characters ends, besides blanks. -/
def endsRun (c : Char) : Bool := "=,[]\x7b\x7d#\r\n".toList.contains c

/-- Whether a text continues a run of characters behind blanks. -/
def continuesRun (cs : List Char) : Bool :=
  cs.head?.any fun c => !endsRun c && c ≠ '.' && c ≠ '"' && c ≠ '\''

/-- The first run of characters of a text. Blanks belong to it if it goes on behind them. -/
def splitRun : List Char → List Char × List Char
  | [] => ([], [])
  | c :: cs =>
    if endsRun c ∨ (isBlank c ∧ !continuesRun (cs.dropWhile isBlank)) then ([], c :: cs)
    else consChar c (splitRun cs)

/-- A scalar that is no string. -/
def readScalar (cs : List Char) : Option (Data × List Char) :=
  let (run, rest) := splitRun cs
  (readRun run).map fun data => (data, rest)

end TouchAutomata.Toml
