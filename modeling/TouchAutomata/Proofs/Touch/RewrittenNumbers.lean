import TouchAutomata.Touch.Encoding
import TouchAutomata.Proofs.Text.Numerals

/-!
# Touches with another number

To give a touch another number is to write it behind the first character of the core. The number is
then read back, unless the core was empty: what is written into an empty core loses its first
character to the action, and the rest is another number or none (`number_renumber_iff`).
-/

set_option autoImplicit false

namespace TouchAutomata.Touch

variable {t : Touch} {c : Char} {cs : List Char}

/-- The number is read from all that follows the first character. -/
theorem number_of_core (h : t.core.toList = c :: cs) :
    t.number = ((Numeral.readInt cs).bind Numeral.signed?).getD unnumbered := by
  unfold number
  rw [h]
  cases cs with
  | nil => rfl
  | cons d ds => rfl

/-- The action is that of the first letter, if any character follows it. -/
theorem action_of_core (h : t.core.toList = c :: cs) (hne : cs ≠ []) :
    t.action = Action.ofLetter c := by
  unfold action
  rw [h]
  cases cs with
  | nil => exact absurd rfl hne
  | cons d ds => rfl

/-- The number is written behind the first character of the core, in place of the others. -/
theorem toList_core_renumber (t : Touch) (n : Int32) :
    (t.renumber n).core.toList = t.core.toList.take 1 ++ (Numeral.signedText n).toList := by
  simp [renumber, String.toList_append]

/-- A number is written with some character. -/
theorem toList_signedText_ne_nil (n : Int32) : (Numeral.signedText n).toList ≠ [] := by
  intro hnil
  have hread := Numeral.readInt_toString n.toInt
  rw [← Numeral.signedText, hnil] at hread
  cases hread

/-- The first character of the core stays. -/
theorem core_renumber_eq_cons (h : t.core.toList.head? = some c) (n : Int32) :
    (t.renumber n).core.toList = c :: (Numeral.signedText n).toList := by
  obtain ⟨cs, hcs⟩ := List.head?_eq_some_iff.1 h
  rw [toList_core_renumber, hcs]
  rfl

/-- The number that was given is read back, if the core had a first character. -/
theorem number_renumber (h : t.core.toList.head? = some c) (n : Int32) :
    (t.renumber n).number = n := by
  rw [number_of_core (core_renumber_eq_cons h n), Numeral.signedText, Numeral.readInt_toString,
    Option.bind_some, Numeral.signed?_toInt, Option.getD_some]

/-- The first character written into an empty core stands for the action. -/
theorem number_renumber_ne (h : t.core.toList = []) (n : Int32) : (t.renumber n).number ≠ n := by
  obtain ⟨c, cs, hcs⟩ := List.exists_cons_of_ne_nil (toList_signedText_ne_nil n)
  have hcore : (t.renumber n).core.toList = c :: cs := by
    rw [toList_core_renumber, h, hcs]
    rfl
  rw [number_of_core hcore]
  have hread := Numeral.getD_tail_signedText_ne n
  rw [hcs] at hread
  exact hread

/-- A number that was given before makes no difference. -/
theorem renumber_renumber (h : t.core.toList.head? = some c) (n m : Int32) :
    (t.renumber n).renumber m = t.renumber m := by
  obtain ⟨cs, hcs⟩ := List.head?_eq_some_iff.1 h
  have hcore : ((t.renumber n).renumber m).core = (t.renumber m).core := by
    rw [← String.toList_inj, toList_core_renumber, toList_core_renumber,
      core_renumber_eq_cons h, hcs]
    rfl
  show Touch.mk ((t.renumber n).renumber m).core _ _ = _
  rw [hcore]
  rfl

/-- The number that was given to a touch is read back exactly when its core was not empty. The first
character stays then, and with it the action; a number given before makes no difference. The
attributes and the triggers stay in any case. -/
theorem number_renumber_iff (t : Touch) (n m : Int32) :
    ((t.renumber n).number = n ↔ t.core ≠ "") ∧
    (∀ c, t.core.toList.head? = some c →
      (t.renumber n).core.toList.head? = some c ∧
      (t.renumber n).action = Action.ofLetter c ∧
      (t.renumber n).renumber m = t.renumber m) ∧
    (t.renumber n).attributes = t.attributes ∧
    (t.renumber n).triggers = t.triggers := by
  refine ⟨?_, ?_, rfl, rfl⟩
  · cases hcore : t.core.toList with
    | nil =>
      apply iff_of_false (number_renumber_ne hcore n)
      simpa using hcore
    | cons c cs =>
      apply iff_of_true (number_renumber (c := c) (by simp [hcore]) n)
      rintro hempty
      rw [hempty] at hcore
      exact nomatch hcore
  · intro c hc
    have hcore := core_renumber_eq_cons hc n
    refine ⟨by rw [hcore, List.head?_cons], ?_, renumber_renumber hc n m⟩
    exact action_of_core hcore (toList_signedText_ne_nil n)

/-- The least number behind a sign that is taken for the action, as any first character is. -/
theorem number_renumber_iff_least :
    (ofEncoding "-7:fast").core.toList.head? = some '-' ∧
    ((ofEncoding "-7:fast").renumber (-2147483648)).number = -2147483648 ∧
    ((ofEncoding "-7:fast").renumber (-2147483648)).action = Action.other ∧
    ((ofEncoding "-7:fast").renumber (-2147483648)).attributes = ["fast"] := by
  have hcore : (ofEncoding "-7:fast").core.toList.head? = some '-' := by decide +kernel
  obtain ⟨hnumber, hfirst, hattributes, -⟩ :=
    number_renumber_iff (ofEncoding "-7:fast") (-2147483648) 42
  obtain ⟨-, haction, -⟩ := hfirst '-' hcore
  refine ⟨hcore, hnumber.2 ?_, haction, ?_⟩
  · decide +kernel
  · rw [hattributes]
    decide +kernel

end TouchAutomata.Touch
