import TouchAutomata.Toml.Reader
import TouchAutomata.Proofs.Text.Numerals
import TouchAutomata.Proofs.Toml.WrittenStrings
import Mathlib.Data.List.TakeWhile

/-!
# Values that were written

A text stands for a value if it is read as this value wherever it ends a line. The text of a string
does (`standsFor_quoted`), and so do the digits of a number that fits into 64 bits
(`standsFor_toString`).
-/

set_option autoImplicit false

namespace TouchAutomata.Toml

open Numeral (isDigit_of_mem_toDigits noLeadingZero_toDigits)

variable {c : Char} {ds rest : List Char} {n : Nat}

/-- A text that is read as a value at the end of a line. -/
structure StandsFor (text : String) (data : Data) : Prop where
  begins : ∀ c ∈ text.toList.head?, isBlank c = false
  reads : ∀ calls depth rest,
    readValue (calls + 1) depth (text.toList ++ '\n' :: rest) = some (data, '\n' :: rest)

/-- Characters that a test tells apart are different. -/
theorem ne_of_test {p : Char → Bool} {d : Char} (hc : p c = true) (hd : p d = false) : c ≠ d := by
  rintro rfl
  exact Bool.false_ne_true (hd.symm.trans hc)

/-! ## Strings -/

/-- The string that is written for a text stands for this text. -/
theorem standsFor_quoted (s : String) : StandsFor (quoted s) (.ofText s) := by
  have hdelimiter : ∃ d ds, (quoted s).toList = d :: ds ∧ (d = '"' ∨ d = '\'') := by
    rw [quoted, String.toList_ofList]
    cases StringKind.ofText s.toList with
    | basic => exact ⟨_, _, rfl, .inl rfl⟩
    | literal => exact ⟨_, _, rfl, .inr rfl⟩
    | multiBasic => exact ⟨_, _, rfl, .inl rfl⟩
    | multiLiteral => exact ⟨_, _, rfl, .inr rfl⟩
  obtain ⟨d, ds, hds, hd⟩ := hdelimiter
  constructor
  · intro c hc
    rw [hds, List.head?_cons, Option.mem_some_iff] at hc
    rcases hd with rfl | rfl
    · exact hc ▸ by decide
    · exact hc ▸ by decide
  · intro calls depth rest
    have ends : EndsString ('\n' :: rest) := by simp [EndsString]
    have hread := readString_quoted s ends
    rw [hds, List.cons_append] at hread ⊢
    rw [readValue, if_pos hd, hread, Option.map_some]
    dsimp only
    rw [String.ofList_toList]

/-! ## Numbers -/

/-- A decimal digit has its value in any base. -/
theorem hexValue?_of_isDigit (h : c.isDigit = true) : hexValue? c = some (c.toNat - '0'.toNat) :=
  if_pos h

/-- A decimal digit is a digit in every base from ten on. -/
theorem isDigitIn_of_isDigit {base : Nat} (hbase : 10 ≤ base) (h : c.isDigit = true) :
    isDigitIn base c = true := by
  have hbounds := Numeral.isDigit_iff_toNat.1 h
  have hvalue : c.toNat - '0'.toNat < base := by
    show c.toNat - 48 < base
    omega
  rw [isDigitIn, hexValue?_of_isDigit h]
  exact decide_eq_true hvalue

/-- Digits alone are well grouped. -/
theorem isGrouped_of_digits (digits : ∀ c ∈ ds, c.isDigit = true) (after : Bool) :
    isGrouped (isDigitIn 16) after ds = true := by
  induction ds generalizing after with
  | nil => rfl
  | cons c ds ih =>
    obtain ⟨hc, hds⟩ := List.forall_mem_cons.1 digits
    rw [isGrouped, if_neg (ne_of_test hc (by decide))]
    exact ih hds _

/-- From digits alone no separator is taken away. -/
theorem ungroup_of_digits (digits : ∀ c ∈ ds, c.isDigit = true) : ungroup ds = ds := by
  apply List.filter_eq_self.2
  intro c hc
  exact decide_eq_true (ne_of_test (digits c hc) (by decide))

/-- The decimal digits of a number have its value. -/
theorem valueInBase_toDigits (n : Nat) : valueInBase 10 (Nat.toDigits 10 n) = n := by
  have hfold : ∀ ds : List Char, (∀ c ∈ ds, c.isDigit = true) → ∀ m,
      ds.foldl (fun n c => 10 * n + (hexValue? c).getD 0) m = Nat.ofDigitChars 10 ds m := by
    intro ds
    induction ds with
    | nil => exact fun _ _ => rfl
    | cons c ds ih =>
      intro digits m
      obtain ⟨hc, hds⟩ := List.forall_mem_cons.1 digits
      rw [List.foldl_cons, ih hds, hexValue?_of_isDigit hc, Nat.ofDigitChars_cons]
      rfl
  rw [valueInBase, hfold _ fun _ => isDigit_of_mem_toDigits, Nat.ofDigitChars_toDigits] <;> decide

/-- A number of 64 bits is in the range of integers. -/
theorem fitsInteger_of_lt (hn : n < Numeral.bitRange 64) : fitsInteger n = true := by
  simp only [show Numeral.bitRange 64 = 18446744073709551616 from rfl] at hn
  simp only [fitsInteger, Bool.and_eq_true, decide_eq_true_eq,
    show Numeral.bitRange 127 = 170141183460469231731687303715884105728 from rfl,
    show Numeral.bitRange 128 = 340282366920938463463374607431768211456 from rfl]
  omega

/-- The digits of a number of 64 bits are read as an integer. -/
theorem readInteger_toDigits (hn : n < Numeral.bitRange 64) :
    readInteger false 10 (Nat.toDigits 10 n) = some (.integer n) := by
  have digits : ∀ c ∈ Nat.toDigits 10 n, c.isDigit = true := fun _ => isDigit_of_mem_toDigits
  have hbase : (Nat.toDigits 10 n).all (isDigitIn 10) = true := by
    rw [List.all_eq_true]
    exact fun c hc => isDigitIn_of_isDigit (Nat.le_refl 10) (digits c hc)
  rw [readInteger, if_pos (isGrouped_of_digits digits false)]
  simp [ungroup_of_digits digits, valueInBase_toDigits, fitsInteger_of_lt hn, Nat.toDigits_ne_nil,
    hbase]

/-- From digits alone no sign is taken away. -/
theorem dropSign_of_digits (digits : ∀ c ∈ ds, c.isDigit = true) : dropSign ds = ds := by
  unfold dropSign
  split
  · exact absurd (digits '+' (by simp)) (by decide)
  · exact absurd (digits '-' (by simp)) (by decide)
  · rfl

/-- Digits without a zero in front are read as a decimal integer. -/
theorem readDecimal_of_digits (hne : ds ≠ []) (digits : ∀ c ∈ ds, c.isDigit = true)
    (hzero : hasLeadingZero ds = false) : readDecimal ds = readInteger false 10 ds := by
  have htail : ds.dropWhile Char.isDigit = [] := List.dropWhile_eq_nil_iff.2 digits
  have hlength : 0 ≠ ds.length := fun h => hne (List.length_eq_zero_iff.1 h.symm)
  have hsign : decide (ds.head? = some '-') = false := by
    apply decide_eq_false
    intro hhead
    exact absurd (digits '-' (List.mem_of_mem_head? hhead)) (by decide)
  rw [readDecimal, dropSign_of_digits digits]
  simp [htail, hsign, hlength, hzero]

/-- A run of digits has none of the characters that make a run something else than an integer. -/
theorem readRun_of_digits (hne : ds ≠ []) (digits : ∀ c ∈ ds, c.isDigit = true)
    (hzero : hasLeadingZero ds = false) {data : Data}
    (hread : readInteger false 10 ds = some data) : readRun ds = some data := by
  have hword (c : Char) (cs : List Char) (hc : c.isDigit = false) : ds ≠ c :: cs := by
    rintro rfl
    exact Bool.false_ne_true (hc.symm.trans (digits c List.mem_cons_self))
  have hnumber : readNumber ds = some data := by
    unfold readNumber
    split
    · exact absurd (digits 'x' (by simp)) (by decide)
    · exact absurd (digits 'o' (by simp)) (by decide)
    · exact absurd (digits 'b' (by simp)) (by decide)
    · rw [dropSign_of_digits digits, if_neg, readDecimal_of_digits hne digits hzero, hread]
      rw [not_or]
      exact ⟨hword 'i' _ (by decide), hword 'n' _ (by decide)⟩
  have htrue : ds ≠ "true".toList := hword 't' _ (by decide)
  have hfalse : ds ≠ "false".toList := hword 'f' _ (by decide)
  rw [readRun, if_neg htrue, if_neg hfalse, hnumber]

/-- No digit ends a run. -/
theorem endsRun_of_isDigit (h : c.isDigit = true) : endsRun c = false := by
  have hmarks : "=,[]\x7b\x7d#\r\n".toList.all (fun d => !d.isDigit) = true := by decide
  rw [endsRun, ← Bool.not_eq_true, List.contains_iff_mem]
  intro hmem
  have hdigit := List.all_eq_true.1 hmarks c hmem
  simp [h] at hdigit

/-- No digit is a blank. -/
theorem isBlank_of_isDigit (h : c.isDigit = true) : isBlank c = false := by
  rw [isBlank, Bool.or_eq_false_iff, decide_eq_false_iff_not, decide_eq_false_iff_not]
  exact ⟨ne_of_test h (by decide), ne_of_test h (by decide)⟩

/-- A run of digits goes on to the end of the line. -/
theorem splitRun_of_digits (digits : ∀ c ∈ ds, c.isDigit = true) (rest : List Char) :
    splitRun (ds ++ '\n' :: rest) = (ds, '\n' :: rest) := by
  induction ds with
  | nil =>
    have hend : endsRun '\n' = true := by decide
    simp [splitRun, hend]
  | cons c ds ih =>
    obtain ⟨hc, hds⟩ := List.forall_mem_cons.1 digits
    rw [List.cons_append, splitRun, ih hds]
    simp [endsRun_of_isDigit hc, isBlank_of_isDigit hc, consChar]

/-- The digits of a number of 64 bits are read as it, up to the end of the line. -/
theorem readScalar_toDigits (hn : n < Numeral.bitRange 64) (rest : List Char) :
    readScalar (Nat.toDigits 10 n ++ '\n' :: rest) = some (.integer n, '\n' :: rest) := by
  have digits : ∀ c ∈ Nat.toDigits 10 n, c.isDigit = true := fun _ => isDigit_of_mem_toDigits
  have hzero : hasLeadingZero (Nat.toDigits 10 n) = false := by
    simpa [hasLeadingZero] using noLeadingZero_toDigits n
  have hrun := readRun_of_digits Nat.toDigits_ne_nil digits hzero (readInteger_toDigits hn)
  rw [readScalar, splitRun_of_digits digits]
  dsimp only
  rw [hrun, Option.map_some]

/-- The digits of a number of 64 bits stand for this number. -/
theorem standsFor_toString (hn : n < Numeral.bitRange 64) :
    StandsFor (toString n) (.integer n) := by
  have htext : (toString n).toList = Nat.toDigits 10 n := Nat.toList_repr
  have hfirst : ∃ d ds, Nat.toDigits 10 n = d :: ds ∧ d.isDigit = true := by
    obtain ⟨d, ds, hds⟩ := List.exists_cons_of_ne_nil (Nat.toDigits_ne_nil (n := n) (b := 10))
    exact ⟨d, ds, hds, isDigit_of_mem_toDigits (n := n) (by simp [hds])⟩
  obtain ⟨d, ds, hds, hd⟩ := hfirst
  constructor
  · intro c hc
    rw [htext, hds, List.head?_cons, Option.mem_some_iff] at hc
    exact hc ▸ isBlank_of_isDigit hd
  · intro calls depth rest
    have hread := readScalar_toDigits hn rest
    have hstring : ¬(d = '"' ∨ d = '\'') := by
      rw [not_or]
      exact ⟨ne_of_test hd (by decide), ne_of_test hd (by decide)⟩
    rw [hds, List.cons_append] at hread
    rw [htext, hds, List.cons_append, readValue, if_neg hstring,
      if_neg (ne_of_test hd (by decide)), if_neg (ne_of_test hd (by decide)), hread]

end TouchAutomata.Toml
