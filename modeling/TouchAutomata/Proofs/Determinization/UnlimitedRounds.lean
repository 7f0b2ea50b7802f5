import TouchAutomata.Proofs.Automaton.Determinism
import TouchAutomata.Proofs.Determinization.HaltedExploration
import TouchAutomata.Proofs.Inspection.ReachableStates

/-!
# Rounds without a limit

An exploration that ends well has taken the sets it has found, each in a round of its own
(`rounds_of_ofAutomaton`). These are the attained sets, and there are fewer of them than sets of
reachable states (`length_lt_of_attains`). Without a limit each exploration of an automaton that
has its start state ends well, so its rounds come to an end after all attained sets were taken
(`determinizeInto_unlimited`).
-/

set_option autoImplicit false

namespace TouchAutomata

namespace Automaton

variable {a : Automaton} {L : List StateSet}

/-- The search finds as many states as words lead to. -/
theorem size_reachable (hstart : a.hasState a.start = true) :
    a.reachable.size = a.reachableCount := by
  have hset : {s | ∃ w, a.Reaches w s} = (a.reachable.toList.toFinset : Set StateId) := by
    ext s
    simp [← OrderedSet.mem_def, mem_reachable, hstart]
  rw [reachableCount, hset, Set.ncard_coe_finset,
    List.toFinset_card_of_nodup a.reachable.ascending.nodup, OrderedSet.size]

/-- Different attained sets are fewer than all sets of reachable states. -/
theorem length_lt_of_attains (hstart : a.hasState a.start = true) (distinct : L.Nodup)
    (attained : ∀ S ∈ L, a.Attains S) : L.length < 2 ^ a.reachableCount := by
  rw [← size_reachable hstart]
  refine Exploration.length_lt_of_subsets distinct fun S hS => ?_
  obtain ⟨hsome, w, hw⟩ := attained S hS
  exact ⟨hsome, fun s hs => mem_reachable.2 ⟨hstart, w, (hw s).1 hs⟩⟩

end Automaton

namespace Exploration

variable {a target : Automaton} {limit : StateLimit} {x : Exploration}

/-- Nothing is pending when an exploration is finished. -/
theorem Finished.pending_eq (h : Finished a limit target x) : x.pending = [] := by
  have hfound : x.found = x.found ++ x.pending := Stage.found_eq h
  exact List.self_eq_append_right.1 hfound

/-- The rounds of an exploration that ends well take all sets that it finds. -/
theorem rounds_of_ofAutomaton (h : ofAutomaton a limit target = .ok x) :
    Rounds a limit (begin a.start target) x.found x := by
  obtain ⟨taken, hrounds, -⟩ := exists_rounds_of_explore h
  obtain ⟨done, hstage⟩ := hrounds.stage .begun
  have hpending := (ofAutomaton_finished h).1.pending_eq
  have hfound : x.found = taken := by
    rw [hstage.found_eq, hpending, List.nil_append, List.append_nil]
  rw [hfound]
  exact hrounds

end Exploration

namespace Automaton

open Exploration

variable {a target : Automaton}

/-- Without a limit the rounds come to an end. They take each attained set once and no other set,
and make at most one state for each. There are fewer of them than sets of reachable states. -/
theorem determinizeInto_unlimited (hstart : a.hasState a.start = true)
    (htarget : target.isEmpty = true) :
    ∃ taken x, Rounds a none (begin a.start target) taken x ∧ x.pending = [] ∧
      (∀ ps y, Rounds a none (begin a.start target) ps y → ps <+: taken) ∧
      (taken.map Prod.fst).Nodup ∧ (∀ S, S ∈ taken.map Prod.fst ↔ a.Attains S) ∧
      a.determinizeInto target none = (.ok x.report, x.finished) ∧
      x.report.states ≤ taken.length ∧ taken.length ≤ 2 ^ a.reachableCount - 1 := by
  obtain ⟨x, hx⟩ := exists_ofAutomaton_unlimited hstart target
  obtain ⟨hfinished, -⟩ := ofAutomaton_finished hx
  have hrounds := rounds_of_ofAutomaton hx
  have hpending := hfinished.pending_eq
  have hattained : ∀ S, S ∈ x.found.map Prod.fst ↔ a.Attains S := by
    intro S
    rw [← hfinished.exists_mem_found_iff]
    simp
  have hdistinct := (Stage.numbered hfinished).distinct
  have hlength := length_lt_of_attains hstart hdistinct fun S hS => (hattained S).1 hS
  rw [List.length_map] at hlength
  refine ⟨x.found, x, hrounds, hpending, fun ps y hy => hy.isPrefixOf hrounds hpending, hdistinct,
    hattained, ?_, ?_, Nat.le_sub_one_of_lt hlength⟩
  · rw [determinizeInto_of_isEmpty htarget, isEmpty_of_hasState hstart, hx]
    rfl
  · exact hfinished.stateCount_le (List.isEmpty_iff.1 htarget)

/-- The rounds come to an end although the gesture can be drawn out without end. -/
theorem determinizeInto_unlimited_forked :
    forked.hasState forked.start = true ∧ (∅ : Automaton).isEmpty = true ∧
    ∃ taken x, Rounds forked none (begin forked.start ∅) taken x ∧ x.pending = [] ∧
      (∀ ps y, Rounds forked none (begin forked.start ∅) ps y → ps <+: taken) ∧
      (taken.map Prod.fst).Nodup ∧ (∀ S, S ∈ taken.map Prod.fst ↔ forked.Attains S) ∧
      forked.determinizeInto ∅ none = (.ok x.report, x.finished) ∧
      x.report.states ≤ taken.length ∧ taken.length ≤ 2 ^ forked.reachableCount - 1 := by
  have hstart : forked.hasState forked.start = true := by decide +kernel
  exact ⟨hstart, rfl, determinizeInto_unlimited hstart rfl⟩

end Automaton

end TouchAutomata
