import TouchAutomata.Json.Reader
import TouchAutomata.Proofs.Text.Numerals

/-!
# Integers that were written

The digits of an integer have no zero in front, and what follows an integer in a document does not
go on with it. So an integer is read back as far as it was written (`readNumber_digits`).
-/

set_option autoImplicit false

namespace TouchAutomata.Json

open Numeral (isDigit_of_mem_toDigits noLeadingZero_toDigits)

variable {cs ds rest : List Char}

/-- No number goes on with what is left of a text. -/
def EndsNumber (rest : List Char) : Prop :=
  ∀ c ∈ rest.head?, c.isDigit = false ∧ c ≠ '.' ∧ c ≠ 'e' ∧ c ≠ 'E'

/-- Whether a text goes on with a number is told by its first character. -/
theorem endsNumber_cons {c : Char} (hd : c.isDigit = false) (hpoint : c ≠ '.') (he : c ≠ 'e')
    (hE : c ≠ 'E') (rest : List Char) : EndsNumber (c :: rest) := by
  intro d hd'
  obtain rfl : c = d := by simpa using hd'
  exact ⟨hd, hpoint, he, hE⟩

/-! ## Digits -/

/-- All digits are taken, up to what is no digit. -/
theorem readDigits_append (hne : ds ≠ []) (digits : ∀ c ∈ ds, c.isDigit = true)
    (ends : EndsNumber rest) : readDigits (ds ++ rest) = some (ds, rest) := by
  have hspan : (ds ++ rest).span Char.isDigit = (ds, rest) :=
    span_append_of_stop digits fun c hc => (ends c hc).1
  rw [readDigits, hspan]
  cases ds with
  | nil => exact absurd rfl hne
  | cons c ds => rfl

/-- The digits of a number are taken, and nothing else. -/
theorem readDigits_toDigits (n : Nat) (ends : EndsNumber rest) :
    readDigits (Nat.toDigits 10 n ++ rest) = some (Nat.toDigits 10 n, rest) :=
  readDigits_append Nat.toDigits_ne_nil (fun _ => isDigit_of_mem_toDigits) ends

/-- Where a number ends there is no fraction. -/
theorem readFraction_of_ends (ends : EndsNumber rest) : readFraction rest = some ([], rest) := by
  cases rest with
  | nil => rfl
  | cons c rest =>
    unfold readFraction
    split
    · rename_i heq
      exact absurd (List.cons.inj heq).1 (ends c rfl).2.1
    · rfl

/-- Where a number ends there is no exponent. -/
theorem readExponent_of_ends (ends : EndsNumber rest) : readExponent rest = some ([], rest) := by
  cases rest with
  | nil => rfl
  | cons c rest =>
    obtain ⟨-, -, he, hE⟩ := ends c rfl
    simp [readExponent, he, hE]

/-! ## Integers -/

/-- Digits without a sign are a natural number. -/
theorem readNumber_toDigits (n : Nat) (ends : EndsNumber rest) :
    readNumber (Nat.toDigits 10 n ++ rest) = some (.integer n, rest) := by
  have hdigits := readDigits_toDigits n ends
  have hsign : ∀ cs', Nat.toDigits 10 n ++ rest ≠ '-' :: cs' := by
    intro cs' heq
    cases hds : Nat.toDigits 10 n with
    | nil => exact Nat.toDigits_ne_nil hds
    | cons c ds =>
      have hc : c.isDigit = true := isDigit_of_mem_toDigits (n := n) (by simp [hds])
      rw [hds] at heq
      obtain rfl : c = '-' := (List.cons.inj heq).1
      exact absurd hc (by decide)
  simp [readNumber, hdigits, noLeadingZero_toDigits, readFraction_of_ends ends,
    readExponent_of_ends ends, Nat.ofDigitChars_toDigits]

/-- Digits behind a sign are a negative number; minus zero would be none. -/
theorem readNumber_negative {n : Nat} (hn : 0 < n) (ends : EndsNumber rest) :
    readNumber ('-' :: Nat.toDigits 10 n ++ rest) = some (.integer (-n), rest) := by
  have hdigits := readDigits_toDigits n ends
  have hzero : n ≠ 0 := by omega
  simp [readNumber, hdigits, noLeadingZero_toDigits, readFraction_of_ends ends,
    readExponent_of_ends ends, Nat.ofDigitChars_toDigits, hzero]

/-- The digits of an integer, with its sign. -/
def digits : Int → List Char
  | .ofNat n => Nat.toDigits 10 n
  | .negSucc n => '-' :: Nat.toDigits 10 (n + 1)

/-- An integer is written as its digits. -/
theorem toList_toString_int (n : Int) : (toString n).toList = digits n := by
  cases n with
  | ofNat n => simp [digits, toString, Int.repr]
  | negSucc n => simp [digits, toString, Int.repr]

/-- An integer begins with its sign or with a digit. -/
theorem exists_digits_eq_cons (n : Int) :
    ∃ c cs, digits n = c :: cs ∧ (c = '-' ∨ c.isDigit = true) := by
  cases n with
  | ofNat n =>
    cases hds : Nat.toDigits 10 n with
    | nil => exact absurd hds Nat.toDigits_ne_nil
    | cons c ds => exact ⟨c, ds, hds, .inr (isDigit_of_mem_toDigits (n := n) (by simp [hds]))⟩
  | negSucc n => exact ⟨'-', Nat.toDigits 10 (n + 1), rfl, .inl rfl⟩

/-- A written integer is read back. -/
theorem readNumber_digits (n : Int) (ends : EndsNumber rest) :
    readNumber (digits n ++ rest) = some (.integer n, rest) := by
  cases n with
  | ofNat n => exact readNumber_toDigits n ends
  | negSucc n => exact readNumber_negative (Nat.succ_pos n) ends

end TouchAutomata.Json
