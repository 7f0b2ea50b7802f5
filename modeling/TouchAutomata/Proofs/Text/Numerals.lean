import TouchAutomata.Text.Numeral
import Mathlib.Algebra.Group.Nat.Defs
import Mathlib.Data.List.Induction
import Mathlib.Data.List.TakeDrop

/-!
# The numbers that decimal texts stand for

A run of digits stands for a number below the power of ten with its length, and among the runs of
one length for no number that another one stands for (`ofDigitChars_inj`). An integer that was
written is read back (`readInt_toString`), and is not read from its text without the first character
(`readInt_tail_toString_ne`).
-/

set_option autoImplicit false

namespace TouchAutomata

/-- A run at the front of a list ends where the first element fails the test. -/
theorem span_append_of_stop {α : Type} {p : α → Bool} {xs rest : List α}
    (run : ∀ x ∈ xs, p x = true) (stop : ∀ x ∈ rest.head?, p x = false) :
    (xs ++ rest).span p = (xs, rest) := by
  have htake : rest.takeWhile p = [] := by
    cases rest with
    | nil => rfl
    | cons x rest => simp [stop x rfl]
  have hdrop : rest.dropWhile p = rest := by
    cases rest with
    | nil => rfl
    | cons x rest => simp [stop x rfl]
  rw [List.span_eq_takeWhile_dropWhile, List.takeWhile_append_of_pos run,
    List.dropWhile_append_of_pos run, htake, hdrop, List.append_nil]

namespace Numeral

variable {cs ds : List Char} {n : Nat}

/-! ## Runs of digits -/

/-- The digits are the characters from 0 to 9. -/
theorem isDigit_iff {c : Char} : c.isDigit = true ↔ '0' ≤ c ∧ c ≤ '9' := by
  simp only [Char.isDigit, ge_iff_le, Bool.and_eq_true, decide_eq_true_eq, Char.le_def]

/-- The digits have the code points from 48 to 57. -/
theorem isDigit_iff_toNat {c : Char} : c.isDigit = true ↔ 48 ≤ c.toNat ∧ c.toNat ≤ 57 := by
  rw [isDigit_iff, Char.le_def, Char.le_def, UInt32.le_iff_toNat_le, UInt32.le_iff_toNat_le]
  rfl

/-- One more digit makes a number ten times as large and adds its own value. -/
theorem ofDigitChars_concat (cs : List Char) (c : Char) :
    Nat.ofDigitChars 10 (cs ++ [c]) 0 = 10 * Nat.ofDigitChars 10 cs 0 + (c.toNat - 48) := by
  rw [Nat.ofDigitChars_append, Nat.ofDigitChars_cons, Nat.ofDigitChars_nil]
  rfl

/-- The value of some digits is below the power of ten that their count gives. -/
theorem ofDigitChars_lt (digits : ∀ c ∈ cs, c.isDigit = true) :
    Nat.ofDigitChars 10 cs 0 < 10 ^ cs.length := by
  induction cs using List.reverseRecOn with
  | nil => simp
  | append_singleton cs c ih =>
    have hrest := ih fun d hd => digits d (by simp [hd])
    have hc := isDigit_iff_toNat.1 (digits c (by simp))
    rw [ofDigitChars_concat, List.length_append, List.length_singleton, Nat.pow_succ]
    omega

/-- Runs of the same length that stand for the same number are the same: the last digit is what the
number leaves by ten. -/
theorem ofDigitChars_inj (hcs : ∀ c ∈ cs, c.isDigit = true) (hds : ∀ d ∈ ds, d.isDigit = true)
    (length : cs.length = ds.length)
    (value : Nat.ofDigitChars 10 cs 0 = Nat.ofDigitChars 10 ds 0) : cs = ds := by
  induction cs using List.reverseRecOn generalizing ds with
  | nil => exact (List.eq_nil_of_length_eq_zero length.symm).symm
  | append_singleton cs c ih =>
    cases ds using List.reverseRecOn with
    | nil => simp at length
    | append_singleton ds d =>
      have hc := isDigit_iff_toNat.1 (hcs c (by simp))
      have hd := isDigit_iff_toNat.1 (hds d (by simp))
      rw [ofDigitChars_concat, ofDigitChars_concat] at value
      have hlast : c = d := Char.toNat_inj.1 (by omega)
      have hrest : cs = ds := by
        apply ih
        · exact fun c hc => hcs c (by simp [hc])
        · exact fun d hd => hds d (by simp [hd])
        · simpa using length
        · omega
      rw [hrest, hlast]

/-! ## The digits of a number -/

/-- A number is written with digits only. -/
theorem isDigit_of_mem_toDigits {n : Nat} {c : Char} (hc : c ∈ Nat.toDigits 10 n) :
    c.isDigit = true :=
  Nat.isDigit_of_mem_toDigits (by decide) (by decide) hc

/-- The first digit of a positive number is not zero. -/
theorem head?_toDigits_ne (n : Nat) (hn : 0 < n) : (Nat.toDigits 10 n).head? ≠ some '0' := by
  induction n using Nat.strongRecOn with
  | ind n ih =>
    by_cases h : n < 10
    · have hdigit : ∀ n < 10, 0 < n → n.digitChar ≠ '0' := by decide
      rw [Nat.toDigits_of_lt_base h]
      simpa using hdigit n h hn
    · have hsplit := Nat.toDigits_of_base_le (by decide : 1 < 10) (Nat.le_of_not_lt h)
      have hprefix : (Nat.toDigits 10 (n / 10)).head? ≠ some '0' :=
        ih (n / 10) (by omega) (by omega)
      rw [hsplit]
      cases hdigits : Nat.toDigits 10 (n / 10) with
      | nil => exact absurd hdigits Nat.toDigits_ne_nil
      | cons c ds => simpa [hdigits] using hprefix

/-- Only zero is written with a zero in front. -/
theorem noLeadingZero_toDigits (n : Nat) :
    ¬((Nat.toDigits 10 n).head? = some '0' ∧ (Nat.toDigits 10 n).length ≠ 1) := by
  rintro ⟨hzero, hlength⟩
  apply head?_toDigits_ne n _ hzero
  apply Nat.pos_of_ne_zero
  rintro rfl
  exact hlength rfl

/-! ## Numbers read -/

/-- A text is read as a number exactly if it has characters, all of them digits, and the number is
their value. -/
theorem readNat_eq_some_iff : readNat cs = some n ↔
    cs ≠ [] ∧ (∀ c ∈ cs, c.isDigit = true) ∧ Nat.ofDigitChars 10 cs 0 = n := by
  unfold readNat
  split
  · rename_i h
    rw [Option.some_inj, List.all_eq_true] at *
    exact ⟨fun hn => ⟨h.1, h.2, hn⟩, fun hn => hn.2.2⟩
  · rename_i h
    rw [List.all_eq_true] at h
    constructor
    · exact fun hn => nomatch hn
    · exact fun hn => absurd ⟨hn.1, hn.2.1⟩ h

/-- A number of 32 bits is read back. -/
theorem readNat_toString_word (w : UInt32) : readNat (toString w).toList = some w.toNat :=
  readNat_repr w.toNat

/-- A run of digits has no sign in front. -/
theorem readInt_of_digits (digits : ∀ c ∈ cs, c.isDigit = true) :
    readInt cs = (readNat cs).map fun n : Nat => (n : Int) := by
  unfold readInt
  split
  · exact absurd (digits '-' (by simp)) (by decide)
  · exact absurd (digits '+' (by simp)) (by decide)
  · cases readNat cs <;> rfl

/-- A negative number is written as a sign and its absolute value. -/
theorem toList_toString_negSucc (n : Nat) :
    (toString (Int.negSucc n)).toList = '-' :: (toString (n + 1)).toList := by
  simp [toString, Int.repr]

/-- An integer that was written is read back. -/
theorem readInt_toString (n : Int) : readInt (toString n).toList = some n := by
  cases n with
  | ofNat n =>
    have hread : readNat (toString n).toList = some n := readNat_repr n
    have hdigits := (readNat_eq_some_iff.1 hread).2.1
    show readInt (toString n).toList = _
    rw [readInt_of_digits hdigits, hread]
    rfl
  | negSucc n =>
    have hread : readNat (toString (n + 1)).toList = some (n + 1) := readNat_repr (n + 1)
    rw [toList_toString_negSucc, readInt, hread]
    rfl

/-- A signed number stands for the integer of its value. -/
theorem signed?_eq_some_iff {n : Int} {m : Int32} : signed? n = some m ↔ m.toInt = n := by
  constructor
  · intro h
    unfold signed? at h
    split at h
    · rename_i hrange
      simp only [show bitRange 31 = 2147483648 from rfl] at hrange
      rw [← Option.some.inj h]
      apply Int32.toInt_ofInt_of_le
      · simp; omega
      · simp; omega
    · exact nomatch h
  · rintro rfl
    exact signed?_toInt m

/-- An integer is no signed number exactly if it is beyond one of the two bounds. -/
theorem signed?_eq_none_iff {n : Int} :
    signed? n = none ↔ n < -2147483648 ∨ 2147483647 < n := by
  simp only [signed?, show bitRange 31 = 2147483648 from rfl]
  split
  · rename_i hrange
    apply iff_of_false (Option.some_ne_none _)
    omega
  · rename_i hrange
    apply iff_of_true rfl
    omega

/-! ## Numbers read without their first character -/

/-- Without its sign a negative number is read as its absolute value. -/
theorem readInt_tail_negSucc (n : Nat) :
    readInt (toString (Int.negSucc n)).toList.tail = some ((n + 1 : Nat) : Int) := by
  rw [toList_toString_negSucc, List.tail_cons]
  exact readInt_toString (n + 1 : Nat)

/-- The digits behind the first one are too few for the number. -/
theorem readInt_tail_natCast_ne (n : Nat) : readInt (toString n).toList.tail ≠ some (n : Int) := by
  intro hread
  obtain ⟨hne, hdigits, -⟩ := readNat_eq_some_iff.1 (readNat_repr n)
  cases htext : (toString n).toList with
  | nil => exact hne htext
  | cons c ds =>
    rw [htext, List.tail_cons] at hread
    have hds : ∀ d ∈ ds, d.isDigit = true := by
      intro d hd
      apply hdigits d
      rw [htext]
      exact List.mem_cons_of_mem c hd
    rw [readInt_of_digits hds, Option.map_eq_some_iff] at hread
    obtain ⟨m, hm, hmn⟩ := hread
    obtain ⟨hdsne, -, hvalue⟩ := readNat_eq_some_iff.1 hm
    -- a number below this power has at most as many digits as `ds`, and it has one more
    have hlt : n < 10 ^ ds.length := by
      rw [← Int.natCast_inj.1 hmn, ← hvalue]
      exact ofDigitChars_lt hds
    have hlength : (Nat.toDigits 10 n).length ≤ ds.length :=
      (Nat.length_toDigits_le_iff (by omega) (List.length_pos_iff.2 hdsne)).2 hlt
    have hcons : Nat.toDigits 10 n = c :: ds := by
      rw [← htext]
      exact Nat.toList_repr.symm
    rw [hcons, List.length_cons] at hlength
    omega

/-- No integer is read from its text when the first character is missing. -/
theorem readInt_tail_toString_ne (n : Int) : readInt (toString n).toList.tail ≠ some n := by
  cases n with
  | ofNat n => exact readInt_tail_natCast_ne n
  | negSucc n =>
    rw [readInt_tail_negSucc]
    intro h
    have hsign := Option.some.inj h
    omega

/-- The same when a text without a number in the range counts as `-1`. -/
theorem getD_tail_signedText_ne (n : Int32) :
    ((readInt (signedText n).toList.tail).bind signed?).getD (-1) ≠ n := by
  intro hread
  cases hresult : (readInt (signedText n).toList.tail).bind signed? with
  | none =>
    -- the number would be `-1`, but its text leaves `1`
    rw [hresult, Option.getD_none] at hread
    rw [← hread, signedText, show Int32.toInt (-1) = Int.negSucc 0 from rfl,
      readInt_tail_negSucc] at hresult
    exact nomatch hresult
  | some m =>
    rw [hresult, Option.getD_some] at hread
    obtain ⟨i, hi, hm⟩ := Option.bind_eq_some_iff.1 hresult
    rw [hread, signed?_eq_some_iff] at hm
    rw [← hm] at hi
    exact readInt_tail_toString_ne n.toInt hi

end Numeral

end TouchAutomata
