/-!
# Decimal numerals

Reading natural numbers and integers from decimal text, and the two fixed ranges the program
uses: 32-bit state identifiers and signed 32-bit numbers. A number outside its range is not
read; nothing wraps around. `readNat_repr` says that reading undoes writing.
-/

set_option autoImplicit false

namespace TouchAutomata.Numeral

/-- The number written by a non-empty run of decimal digits. -/
def readNat (cs : List Char) : Option Nat :=
  if cs ≠ [] ∧ cs.all Char.isDigit then some (Nat.ofDigitChars 10 cs 0) else none

/-- The number written by decimal digits, after one sign or none. -/
def readInt : List Char → Option Int
  | '-' :: cs => (readNat cs).map fun n => -(n : Int)
  | '+' :: cs => (readNat cs).map fun n => (n : Int)
  | cs => (readNat cs).map fun n => (n : Int)

/-- How many numbers can be told apart by so many bits. -/
def bitRange (bits : Nat) : Nat := Nat.pow 2 bits

/-- The unsigned 32-bit word of a number in its range. -/
def word? (n : Int) : Option UInt32 :=
  if 0 ≤ n ∧ n < bitRange 32 then some (UInt32.ofNat n.toNat) else none

/-- The signed 32-bit number of a number in its range. -/
def signed? (n : Int) : Option Int32 :=
  if -bitRange 31 ≤ n ∧ n < bitRange 31 then some (Int32.ofInt n) else none

/-- The decimal text of a signed 32-bit number. -/
def signedText (n : Int32) : String := toString n.toInt

/-- A natural number that was written is read back. -/
theorem readNat_repr (n : Nat) : readNat (toString n).toList = some n := by
  have hd : ∀ c ∈ Nat.toDigits 10 n, c.isDigit := fun c hc => by
    exact Nat.isDigit_of_mem_toDigits (by decide) (by decide) hc
  have hne : Nat.toDigits 10 n ≠ [] := Nat.toDigits_ne_nil
  simp [readNat, hne, List.all_eq_true.2 hd, Nat.ofDigitChars_toDigits]

/-- The number of a word is in the range of words, and stands for this word. -/
theorem word?_toNat (w : UInt32) : word? (w.toNat : Int) = some w := by
  have h := w.toNat_lt
  simp only [word?, show bitRange 32 = 4294967296 from rfl]
  rw [if_pos (by omega)]
  simp

/-- The integer of a signed number is in the range, and stands for this number. -/
theorem signed?_toInt (n : Int32) : signed? n.toInt = some n := by
  have h := n.le_toInt
  have h' := n.toInt_lt
  simp only [signed?, show bitRange 31 = 2147483648 from rfl]
  rw [if_pos (by omega)]
  simp

end TouchAutomata.Numeral
