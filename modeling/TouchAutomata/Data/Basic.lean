import TouchAutomata.Text.Numeral

/-!
# Structured data

What documents in JSON and in TOML have in common: numbers, strings, lists and records. The
views below answer what a place in a document holds if it is of the kind asked for. A record
with known fields may also be written as the list of its fields in their order. What stands
under an unknown name does not matter but has to be readable; what nobody looks at need not be.
-/

set_option autoImplicit false

namespace TouchAutomata

/-- One piece of structured data. A string, also one that names a field, has no text when half
of a surrogate pair stands in it alone. -/
inductive Data where
  | null
  | boolean (value : Bool)
  | integer (value : Int)
  /-- A number that is not written as an integer, as it is written. -/
  | number (literal : String)
  /-- What has the form of a number and no value that can be held. -/
  | unreadable
  | string (text : Option String)
  | list (items : List Data)
  | record (fields : List (Option String × Data))
  deriving Inhabited

namespace Data

/-- The data of a text. -/
def ofText (s : String) : Data := string (some s)

/-- The data of a word. -/
def ofWord (w : UInt32) : Data := integer w.toNat

/-- The data of a natural number. -/
def ofNat (n : Nat) : Data := integer n

/-- The data of a signed number. -/
def ofSigned (n : Int32) : Data := integer n.toInt

/-- A record from names and values. -/
def ofFields (fields : List (String × Data)) : Data :=
  record (fields.map fun f => (some f.1, f.2))

/-- The word that an integer is. -/
def word? : Data → Option UInt32
  | integer n => Numeral.word? n
  | _ => none

/-- The signed 32-bit number that an integer is. -/
def signed? : Data → Option Int32
  | integer n => Numeral.signed? n
  | _ => none

/-- The number that an integer of at most 64 bits without a sign is. -/
def count? : Data → Option Nat
  | integer n => if 0 ≤ n ∧ n < Numeral.bitRange 64 then some n.toNat else none
  | _ => none

/-- The text that a string has. -/
def text? : Data → Option String
  | string t => t
  | _ => none

/-- The items that a list has. -/
def items? : Data → Option (List Data)
  | list items => some items
  | _ => none

/-- The choice that a string names, or the only field of a record whose value is empty. -/
def choice? : Data → Option String
  | string t => t
  | record [(some name, record [])] => some name
  | record [(some name, list [])] => some name
  | _ => none

/-- The value of a field in a record; a field must not be there twice. -/
def field? (fields : List (Option String × Data)) (names : List String) :
    Option (Option Data) :=
  match fields.filter fun f => f.1.any names.contains with
  | [] => some none
  | [f] => some (some f.2)
  | _ => none

mutual

/-- Whether every number in a piece of data has a value. -/
def isReadable : Data → Bool
  | unreadable => false
  | list items => areReadable items
  | record fields => areFieldsReadable fields
  | _ => true

/-- Whether every number in some items has a value. -/
def areReadable : List Data → Bool
  | [] => true
  | item :: items => item.isReadable && areReadable items

/-- Whether every number in some fields has a value. -/
def areFieldsReadable : List (Option String × Data) → Bool
  | [] => true
  | (_, value) :: fields => value.isReadable && areFieldsReadable fields

end

/-- What a list that stands for a record may hold behind the last of its fields. -/
inductive Surplus where
  | refused
  /-- Anything, since nobody looks at it. -/
  | unseen
  deriving DecidableEq, Repr

/-- Whether a field may stand in a record: its name has a text and, unless it is known, its
value is readable. -/
def isAdmissible (known : List (List String)) : Option String × Data → Bool
  | (none, _) => false
  | (some name, value) => known.any (·.contains name) || value.isReadable

/-- The values of known fields, given with all their names; `none` stands for a missing field.
Fields with other names and, if they are allowed, surplus items do not matter. -/
def fields? (surplus : Surplus) (known : List (List String)) :
    Data → Option (List (Option Data))
  | list items =>
    if items.length ≤ known.length ∨ surplus = .unseen then
      some ((items.take known.length).map some ++
        List.replicate (known.length - items.length) none)
    else none
  | record fields =>
    if fields.all (isAdmissible known) then known.mapM (field? fields) else none
  | _ => none

end Data

end TouchAutomata
