import TouchAutomata.Touch.Policy
import TouchAutomata.Proofs.Touch.Labels
import TouchAutomata.Proofs.Touch.RewrittenNumbers

/-!
# What the strict policy reads

The strict policy takes the texts whose core is the letter of an action and then the digits of a
number that 31 bits can hold (`ProperCore`), and it reads them as the lenient policy does
(`read_strict_iff`). Such a core stands for one action and one number; two that stand for the same
differ in the zeros in front of the number alone (`ProperCore.eq_iff`). So touches with the same
action, number and attributes are the same letter when their numbers are as long as each other
(`alike_iff_of_read_strict`).
-/

set_option autoImplicit false

namespace TouchAutomata

/-- The letters of the actions that have one. -/
inductive Action.Letter : Char → Action → Prop
  | down : Letter 'D' .down
  | move : Letter 'M' .move
  | up : Letter 'U' .up

namespace Action.Letter

variable {c d : Char} {a b : Action}

/-- The letter of an action is read as this action. -/
theorem ofLetter_eq (h : Letter c a) : ofLetter c = a := by
  cases h <;> rfl

/-- An action has one letter. -/
theorem letter_unique (hc : Letter c a) (hd : Letter d a) : c = d := by
  cases hc <;> cases hd <;> rfl

/-- Three characters are letters of actions. -/
theorem exists_iff : (∃ a, Letter c a) ↔ c = 'D' ∨ c = 'M' ∨ c = 'U' := by
  constructor
  · rintro ⟨a, h⟩
    cases h <;> simp
  · rintro (rfl | rfl | rfl)
    · exact ⟨_, down⟩
    · exact ⟨_, move⟩
    · exact ⟨_, up⟩

end Action.Letter

namespace Touch

variable {s u : String} {t v : Touch} {cs ds : List Char} {a b : Action} {n m : Nat}

/-- A core that is the letter of an action and then one decimal digit or more, zeros in front
allowed, with the number that the digits stand for, which 31 bits can hold. -/
inductive ProperCore : List Char → Action → Nat → Prop
  | intro {c : Char} {a : Action} {ds : List Char} (letter : Action.Letter c a) (nonempty : ds ≠ [])
    (digits : ∀ d ∈ ds, '0' ≤ d ∧ d ≤ '9') (bounded : Nat.ofDigitChars 10 ds 0 ≤ 2147483647) :
    ProperCore (c :: ds) a (Nat.ofDigitChars 10 ds 0)

/-! ## The core of a text -/

/-- The first piece of a text goes up to its first colon. -/
theorem fst_segments (cs : List Char) : (segments cs).1 = cs.takeWhile (· ≠ ':') := by
  induction cs with
  | nil => rfl
  | cons c cs ih =>
    unfold segments
    by_cases hc : c = ':'
    · simp [hc]
    · simp [hc, ih]

/-- The core of what is read goes up to the first colon of the text. -/
theorem toList_core_ofEncoding (s : String) :
    (ofEncoding s).core.toList = s.toList.takeWhile (· ≠ ':') := by
  show (String.ofList (segments s.toList).1).toList = _
  rw [String.toList_ofList, fst_segments]

/-! ## Cores of a letter and digits -/

/-- The number is the one that the digits stand for, or none if it has more than 31 bits. -/
theorem number_of_digits {c : Char} (h : t.core.toList = c :: ds) (hne : ds ≠ [])
    (digits : ∀ d ∈ ds, '0' ≤ d ∧ d ≤ '9') :
    t.number = (Numeral.signed? (Nat.ofDigitChars 10 ds 0)).getD unnumbered := by
  have hdigits : ∀ d ∈ ds, d.isDigit = true := fun d hd => Numeral.isDigit_iff.2 (digits d hd)
  rw [number_of_core h, Numeral.readInt_of_digits hdigits,
    Numeral.readNat_eq_some_iff.2 ⟨hne, hdigits, rfl⟩, Option.map_some, Option.bind_some]

/-- The strict policy asks a core for the letter of an action and then for digits, one at least. -/
theorem isStrictCore_iff : isStrictCore cs = true ↔
    ∃ c a ds, cs = c :: ds ∧ Action.Letter c a ∧ ds ≠ [] ∧ ∀ d ∈ ds, '0' ≤ d ∧ d ≤ '9' := by
  unfold isStrictCore
  constructor
  · intro h
    split at h
    · rename_i c d ds
      simp only [Bool.and_eq_true, Bool.or_eq_true, decide_eq_true_eq, List.all_eq_true,
        or_assoc] at h
      obtain ⟨a, letter⟩ := Action.Letter.exists_iff.2 h.1
      exact ⟨c, a, d :: ds, rfl, letter, List.cons_ne_nil d ds,
        fun e he => Numeral.isDigit_iff.1 (h.2 e he)⟩
    · exact absurd h Bool.false_ne_true
  · rintro ⟨c, a, ds, rfl, letter, hne, digits⟩
    obtain ⟨d, ds, rfl⟩ := List.exists_cons_of_ne_nil hne
    simp only [Bool.and_eq_true, Bool.or_eq_true, decide_eq_true_eq, List.all_eq_true, or_assoc]
    exact ⟨Action.Letter.exists_iff.1 ⟨a, letter⟩, fun e he => Numeral.isDigit_iff.2 (digits e he)⟩

namespace ProperCore

/-- A proper core has the shape that the strict policy asks for. -/
theorem isStrictCore (h : ProperCore cs a n) : isStrictCore cs = true := by
  cases h with
  | intro letter nonempty digits bounded =>
    exact isStrictCore_iff.2 ⟨_, _, _, rfl, letter, nonempty, digits⟩

/-- The number of a touch with a proper core is the one its digits stand for. -/
theorem toInt_number (h : ProperCore t.core.toList a n) : t.number.toInt = n := by
  generalize hcore : t.core.toList = cs at h
  cases h with
  | intro letter nonempty digits bounded =>
    rw [number_of_digits hcore nonempty digits]
    cases hread : Numeral.signed? (Nat.ofDigitChars 10 _ 0) with
    | none =>
      have hrange := Numeral.signed?_eq_none_iff.1 hread
      omega
    | some k => exact Numeral.signed?_eq_some_iff.1 hread

/-- A touch with a proper core has a number. -/
theorem number_ne_unnumbered (h : ProperCore t.core.toList a n) : t.number ≠ unnumbered := by
  intro hnumber
  have hvalue := h.toInt_number
  rw [hnumber, show unnumbered.toInt = -1 from rfl] at hvalue
  omega

/-- The action of a touch with a proper core is that of its letter. -/
theorem action_eq (h : ProperCore t.core.toList a n) : t.action = a := by
  generalize hcore : t.core.toList = cs at h
  cases h with
  | intro letter nonempty digits bounded =>
    rw [action_of_core hcore nonempty, letter.ofLetter_eq]

/-- A proper core has two characters or more. -/
theorem isDegenerate_eq (h : ProperCore t.core.toList a n) : t.isDegenerate = false := by
  unfold isDegenerate
  generalize t.core.toList = cs at h
  cases h with
  | intro letter nonempty digits bounded =>
    obtain ⟨d, ds, rfl⟩ := List.exists_cons_of_ne_nil nonempty
    rfl

/-- A letter and digits are no proper core when their number has more than 31 bits. -/
theorem exists_of_number (hcore : Touch.isStrictCore t.core.toList = true)
    (hnumber : t.number ≠ unnumbered) : ∃ a n, ProperCore t.core.toList a n := by
  obtain ⟨c, a, ds, hcs, letter, nonempty, digits⟩ := isStrictCore_iff.1 hcore
  rw [number_of_digits hcs nonempty digits] at hnumber
  rw [hcs]
  refine ⟨a, _, intro letter nonempty digits ?_⟩
  -- a larger number is not read, and the touch has none then
  by_contra hlarge
  apply hnumber
  rw [Numeral.signed?_eq_none_iff.2 (by omega), Option.getD_none]

/-- A core stands for one action and one number, and what stands for them is told by its length. -/
theorem eq_iff (h : ProperCore cs a n) (h' : ProperCore ds b m) :
    cs = ds ↔ a = b ∧ n = m ∧ cs.length = ds.length := by
  cases h with
  | @intro c a cs letter nonempty digits bounded =>
    cases h' with
    | @intro d b ds letter' nonempty' digits' bounded' =>
      constructor
      · intro hsame
        obtain ⟨rfl, rfl⟩ := List.cons.inj hsame
        exact ⟨letter.ofLetter_eq.symm.trans letter'.ofLetter_eq, rfl, rfl⟩
      · rintro ⟨rfl, hvalue, hlength⟩
        have hdigits : cs = ds := by
          apply Numeral.ofDigitChars_inj
          · exact fun c hc => Numeral.isDigit_iff.2 (digits c hc)
          · exact fun d hd => Numeral.isDigit_iff.2 (digits' d hd)
          · simpa using hlength
          · exact hvalue
        rw [letter.letter_unique letter', hdigits]

end ProperCore

/-! ## Texts read under the strict policy -/

/-- A text with a proper core is read as the lenient policy reads it. -/
theorem read_strict_of_properCore (h : ProperCore (ofEncoding s).core.toList a n) :
    read .strict s = .ok (ofEncoding s) := by
  simp only [read, h.isStrictCore, Bool.not_true, Bool.false_eq_true, if_false,
    if_neg h.number_ne_unnumbered]

/-- A text without a proper core is refused as malformed. -/
theorem read_strict_of_not_properCore (h : ¬ ∃ a n, ProperCore (ofEncoding s).core.toList a n) :
    ∃ reason, read .strict s = .error (.malformedTouch s reason) := by
  unfold read
  by_cases hcore : isStrictCore (ofEncoding s).core.toList = true
  · have hnumber : (ofEncoding s).number = unnumbered := by
      by_contra hnumber
      exact h (ProperCore.exists_of_number hcore hnumber)
    exact ⟨rangeReason (ofEncoding s).core, by simp [hcore, hnumber]⟩
  · exact ⟨shapeReason (ofEncoding s).core, by simp [hcore]⟩

/-- What the strict policy has read has a proper core. -/
theorem properCore_of_read_strict (h : read .strict s = .ok t) :
    t = ofEncoding s ∧ ∃ a n, ProperCore t.core.toList a n := by
  by_cases hcore : ∃ a n, ProperCore (ofEncoding s).core.toList a n
  · obtain ⟨a, n, hproper⟩ := hcore
    rw [read_strict_of_properCore hproper] at h
    obtain rfl := Except.ok.inj h
    exact ⟨rfl, a, n, hproper⟩
  · obtain ⟨reason, hreason⟩ := read_strict_of_not_properCore hcore
    rw [hreason] at h
    exact nomatch h

/-- The strict policy reads a text exactly when what is before its first colon is a proper core. It
gives what the lenient policy gives, with the action and the number of the core. Otherwise it
refuses the text and says which one it was. -/
theorem read_strict_iff (s : String) :
    ((∃ t, read .strict s = .ok t) ↔ ∃ a n, ProperCore (s.toList.takeWhile (· ≠ ':')) a n) ∧
    (∀ a n, ProperCore (s.toList.takeWhile (· ≠ ':')) a n →
      read .strict s = .ok (ofEncoding s) ∧ (ofEncoding s).action = a ∧
      (ofEncoding s).number.toInt = n ∧ (ofEncoding s).number ≠ unnumbered ∧
      (ofEncoding s).isDegenerate = false) ∧
    ((¬ ∃ a n, ProperCore (s.toList.takeWhile (· ≠ ':')) a n) →
      ∃ reason, read .strict s = .error (.malformedTouch s reason)) := by
  simp only [← toList_core_ofEncoding]
  refine ⟨⟨?_, ?_⟩, ?_, read_strict_of_not_properCore⟩
  · rintro ⟨t, ht⟩
    obtain ⟨rfl, hcore⟩ := properCore_of_read_strict ht
    exact hcore
  · rintro ⟨a, n, h⟩
    exact ⟨ofEncoding s, read_strict_of_properCore h⟩
  · intro a n h
    exact ⟨read_strict_of_properCore h, h.action_eq, h.toInt_number, h.number_ne_unnumbered,
      h.isDegenerate_eq⟩

/-- Zeros in front do not count for the number, and the first number that needs one bit more is
refused. -/
theorem read_strict_iff_padded :
    ProperCore ("M0002147483647:x".toList.takeWhile (· ≠ ':')) .move 2147483647 ∧
    read .strict "M0002147483647:x" = .ok (ofEncoding "M0002147483647:x") ∧
    (ofEncoding "M0002147483647:x").number.toInt = 2147483647 ∧
    (¬ ∃ a n, ProperCore ("M2147483648".toList.takeWhile (· ≠ ':')) a n) ∧
    ∃ reason, read .strict "M2147483648" = .error (.malformedTouch "M2147483648" reason) := by
  have hcore : ProperCore ("M0002147483647:x".toList.takeWhile (· ≠ ':')) .move 2147483647 := by
    have hvalue : Nat.ofDigitChars 10 "0002147483647".toList 0 = 2147483647 := by
      simp [Nat.ofDigitChars_cons]
    have hdigits : ∀ d ∈ "0002147483647".toList, '0' ≤ d ∧ d ≤ '9' := by simp
    have hproper := ProperCore.intro .move (by simp) hdigits (Nat.le_of_eq hvalue)
    rwa [hvalue] at hproper
  obtain ⟨hread, -, hnumber, -⟩ := (read_strict_iff "M0002147483647:x").2.1 _ _ hcore
  have hlarge : ¬ ∃ a n, ProperCore ("M2147483648".toList.takeWhile (· ≠ ':')) a n := by
    rintro ⟨a, n, h⟩
    rw [show "M2147483648".toList.takeWhile (· ≠ ':') = 'M' :: "2147483648".toList from rfl] at h
    cases h with
    | intro letter nonempty digits bounded => simp [Nat.ofDigitChars_cons] at bounded
  exact ⟨hcore, hread, hnumber, hlarge, (read_strict_iff "M2147483648").2.2 hlarge⟩

/-! ## The same letter under the strict policy -/

/-- Touches read under the strict policy are the same letter when they agree in the action, the
number and the attributes, and their cores in the length: as many zeros stand in front of the
numbers. -/
theorem alike_iff_of_read_strict (ht : read .strict s = .ok t) (hv : read .strict u = .ok v) :
    t.alike v = true ↔ t.action = v.action ∧ t.number = v.number ∧
      t.attributes = v.attributes ∧ t.core.length = v.core.length := by
  obtain ⟨rfl, a, n, htcore⟩ := properCore_of_read_strict ht
  obtain ⟨rfl, b, m, hvcore⟩ := properCore_of_read_strict hv
  have hnumber : (ofEncoding s).number = (ofEncoding u).number ↔ n = m := by
    rw [← Int32.toInt_inj, htcore.toInt_number, hvcore.toInt_number, Int.natCast_inj]
  rw [alike_ofEncoding_iff, ← String.toList_inj, htcore.eq_iff hvcore, htcore.action_eq,
    hvcore.action_eq, hnumber, String.length_toList, String.length_toList]
  constructor
  · rintro ⟨⟨haction, hn, hlength⟩, hattributes⟩
    exact ⟨haction, hn, hattributes, hlength⟩
  · rintro ⟨haction, hn, hattributes, hlength⟩
    exact ⟨⟨haction, hn, hlength⟩, hattributes⟩

/-- A colon at the end makes no difference to the letter. -/
theorem alike_iff_of_read_strict_colon :
    read .strict "M07:fast:" = .ok (ofEncoding "M07:fast:") ∧
    read .strict "M07:fast" = .ok (ofEncoding "M07:fast") ∧
    (ofEncoding "M07:fast:").alike (ofEncoding "M07:fast") = true := by
  have hcolon : read .strict "M07:fast:" = .ok (ofEncoding "M07:fast:") := rfl
  have hplain : read .strict "M07:fast" = .ok (ofEncoding "M07:fast") := rfl
  refine ⟨hcolon, hplain, (alike_iff_of_read_strict hcolon hplain).2 ?_⟩
  decide +kernel

/-- The same touch with and without a zero in front of its number is two letters. -/
theorem padded_number_differs :
    read .strict "D1" = .ok (ofEncoding "D1") ∧ read .strict "D01" = .ok (ofEncoding "D01") ∧
    ¬ ((ofEncoding "D1").alike (ofEncoding "D01") = true ↔
      (ofEncoding "D1").action = (ofEncoding "D01").action ∧
      (ofEncoding "D1").number = (ofEncoding "D01").number ∧
      (ofEncoding "D1").attributes = (ofEncoding "D01").attributes) := by
  refine ⟨rfl, rfl, ?_⟩
  decide +kernel

end Touch

end TouchAutomata
