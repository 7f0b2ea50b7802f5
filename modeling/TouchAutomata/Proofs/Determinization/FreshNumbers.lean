import TouchAutomata.Proofs.Determinization.NumberingOrder
import TouchAutomata.Proofs.Determinization.HaltedExploration

/-!
# The next number

The next number is one more than the number of sets found (`Numbered.toNat_fresh`), so it does not
exceed the last number as long as few enough sets are found. A limit sees to that, or the number of
states does, since no more sets are found than there are sets of states
(`Stage.length_le_two_pow`). This holds wherever an exploration passes, whether it ends well or
halts (`fresh_of_bounded`).
-/

set_option autoImplicit false

namespace TouchAutomata.Exploration

variable {a target : Automaton} {limit : StateLimit} {x : Exploration}
variable {taken : List (StateSet × StateId)} {done todo : List Task}

/-! ## How many sets are found -/

/-- Without the start state nothing is found but its set. -/
theorem Stage.length_of_missing (h : Stage a limit target taken done todo x)
    (hmissing : a.hasState a.start = false) : x.found.length = 1 := by
  induction h with
  | begun => rfl
  | take stage next ih => exact ih
  | follow stage step ih =>
    -- no edge leaves the set, so there is no label to follow
    obtain ⟨S, hS, hg⟩ := stage.exists_of_mem_todo (List.mem_cons_self ..)
    have hstart := (stage.attained _ hS).hasState_start hg
    rw [hmissing] at hstart
    cases hstart

/-- No more sets are found than there are sets of states. -/
theorem Stage.length_le_two_pow (h : Stage a limit target taken done todo x) :
    x.found.length ≤ 2 ^ a.stateCount := by
  cases hstart : a.hasState a.start with
  | true => exact (h.length_lt_two_pow hstart).le
  | false =>
    rw [h.length_of_missing hstart]
    exact Nat.one_le_two_pow

/-! ## The next number -/

/-- Before the numbers are used up, the next one is one more than the number of the sets found. -/
theorem Numbered.toNat_fresh (h : x.Numbered) (few : x.found.length + 1 < UInt32.size) :
    x.fresh.toNat = x.found.length + 1 := by
  rw [h.fresh, toNat_nth few]

/-- An exploration gets to `x` on its way, as it takes pending sets and follows labels. -/
def Passes (a : Automaton) (limit : StateLimit) (target : Automaton) (x : Exploration) : Prop :=
  ∃ taken done todo, Stage a limit target taken done todo x

/-- An exploration passes where it ends well. -/
theorem passes_of_ok {rounds : Nat} (h : explore a limit rounds (begin a.start target) = .ok x) :
    Passes a limit target x := by
  obtain ⟨taken, done, hstage, -⟩ := explore_stage .begun h
  exact ⟨taken, done, [], hstage⟩

/-- An exploration passes where it halts. -/
theorem passes_of_error {halt : Halt} (h : ofAutomaton a limit target = .error halt) :
    Passes a limit target halt.reached := by
  cases hstart : a.hasState a.start with
  | true =>
    cases ofAutomaton_atLimit hstart h with
    | full stage _ _ => exact ⟨_, _, _, stage⟩
  | false =>
    rw [ofAutomaton_of_missing hstart] at h
    obtain rfl := Except.error.inj h
    exact ⟨_, _, _, Stage.begun.take rfl⟩

/-- Where an exploration passes, the sets found leave the last number unused, if a limit sees to
that or there are few states. -/
theorem Passes.length_lt (h : Passes a limit target x)
    (bounded : (∃ c, limit = some c ∧ c ≤ UInt32.size - 2) ∨ limit = none ∧ a.stateCount ≤ 31) :
    x.found.length + 1 ≤ UInt32.size - 1 := by
  obtain ⟨taken, done, todo, stage⟩ := h
  rcases bounded with ⟨c, rfl, hc⟩ | ⟨rfl, hcount⟩
  · have hlength := stage.length_le
    have hsize : 3 ≤ UInt32.size := by decide
    omega
  · calc x.found.length + 1
      _ ≤ 2 ^ a.stateCount + 1 := Nat.succ_le_succ stage.length_le_two_pow
      _ ≤ 2 ^ 31 + 1 := Nat.succ_le_succ (Nat.pow_le_pow_right (by decide) hcount)
      _ ≤ UInt32.size - 1 := by decide

/-- From its beginning until it ends well or halts, an exploration has given different numbers to
the sets found, and its next number is one more than the number of these sets. This never exceeds
the last number, if the limit is below it or, without a limit, there are few states. -/
theorem fresh_of_bounded
    (bounded : (∃ c, limit = some c ∧ c ≤ UInt32.size - 2) ∨ limit = none ∧ a.stateCount ≤ 31) :
    (∀ rounds x, explore a limit rounds (begin a.start target) = .ok x →
      Passes a limit target x) ∧
    (∀ halt, ofAutomaton a limit target = .error halt → Passes a limit target halt.reached) ∧
    ∀ x, Passes a limit target x →
      x.fresh.toNat = x.found.length + 1 ∧ x.found.length + 1 ≤ UInt32.size - 1 ∧
      (x.found.map Prod.snd).Nodup := by
  refine ⟨fun rounds x hx => passes_of_ok hx, fun halt hhalt => passes_of_error hhalt, ?_⟩
  intro x hx
  have hlength := hx.length_lt bounded
  have hsize : UInt32.size - 1 < UInt32.size := by decide
  obtain ⟨taken, done, todo, stage⟩ := hx
  refine ⟨stage.numbered.toNat_fresh (by omega), hlength, ?_⟩
  exact (stage.numbered.pairwise_numbers (by omega)).imp fun hlt => UInt32.ne_of_lt hlt

/-- A limit of three makes the exploration of `forked` halt. -/
theorem fresh_of_bounded_forked :
    (∃ c, (some 3 : StateLimit) = some c ∧ c ≤ UInt32.size - 2) ∧
    ∃ halt, ofAutomaton .forked (some 3) ∅ = .error halt ∧
      halt.reached.fresh.toNat = halt.reached.found.length + 1 ∧
      halt.reached.found.length + 1 ≤ UInt32.size - 1 ∧
      (halt.reached.found.map Prod.snd).Nodup := by
  have hbound : ∃ c, (some 3 : StateLimit) = some c ∧ c ≤ UInt32.size - 2 :=
    ⟨3, rfl, by decide⟩
  obtain ⟨-, hhalts, hnumbers⟩ :=
    @fresh_of_bounded .forked ∅ (some 3) (.inl hbound)
  cases hx : ofAutomaton .forked (some 3) ∅ with
  | ok x =>
    have hfails : (ofAutomaton .forked (some 3) ∅).isOk = false := by decide +kernel
    rw [hx] at hfails
    cases hfails
  | error halt => exact ⟨hbound, halt, rfl, hnumbers _ (hhalts halt hx)⟩

end TouchAutomata.Exploration
