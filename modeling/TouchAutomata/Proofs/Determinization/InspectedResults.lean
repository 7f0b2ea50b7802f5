import TouchAutomata.Proofs.Determinization.RepeatedDeterminization
import TouchAutomata.Proofs.Inspection.Cycles
import TouchAutomata.Proofs.Inspection.ReachableStates

/-!
# Inspecting what was determinized

An inspection of a result finds it deterministic and finds all its states reachable, and it counts
the states and the edges that the report counts (`determinize_inspect`). It finds a cycle exactly
when the automaton has one that words lead to (`determinize_hasCycles`): both automata read the same
words, and words of any length can be read exactly when there is such a cycle.
-/

set_option autoImplicit false

namespace TouchAutomata

namespace Exploration

variable {a : Automaton} {limit : StateLimit} {x : Exploration} {d : StateId}

/-- Words lead to all states of a result. -/
theorem Finished.exists_reaches_of_mem_states (h : Finished a limit ∅ x)
    (few : x.found.length < UInt32.size) (hd : d ∈ x.finished.states) :
    ∃ w, x.finished.Reaches w d := by
  rw [h.exists_reaches_number_iff few]
  exact h.exists_set rfl (Automaton.hasState_iff.2 hd)

/-- A result has a cycle exactly when a state that words lead to leads back to itself. -/
theorem Finished.hasCycle_iff (h : Finished a limit ∅ x) (few : x.found.length < UInt32.size) :
    x.finished.hasCycle = true ↔ ∃ s, (∃ v, a.Reaches v s) ∧ a.Leads s s := by
  have hreached : (∃ d, x.finished.Leads d d) ↔
      ∃ d, (∃ v, x.finished.Reaches v d) ∧ x.finished.Leads d d := by
    refine exists_congr fun d => (and_iff_right_of_imp fun hback => ?_).symm
    exact h.exists_reaches_of_mem_states few hback.source_mem_states
  rw [Automaton.hasCycle_iff, hreached, Automaton.exists_leads_self_iff,
    Automaton.exists_leads_self_iff]
  simp only [h.exists_reaches_iff few]

end Exploration

namespace Automaton

variable {a dfa : Automaton} {limit : StateLimit} {report : DeterminizationReport}

/-- An inspection of the deterministic automaton finds that it is deterministic, that words lead to
all its states, that it begins with the first state, and that it has as many states and edges as
the report says. To look up a label at a state gives one state at most. -/
theorem determinize_inspect (h : a.determinize limit = .ok (dfa, report))
    (few : a.attainedCount < UInt32.size - 1) :
    dfa.inspect.isDeterministic = true ∧ dfa.inspect.unreachableStates = [] ∧
    dfa.inspect.startState = 1 ∧ dfa.inspect.totalStates = report.states ∧
    dfa.inspect.totalTransitions = report.transitions ∧
    ∀ d ∈ dfa.states, ∀ l, ∃ ns, dfa.next d l = .ok ns ∧ ns.length ≤ 1 := by
  obtain ⟨x, hx, rfl, rfl⟩ := determinize_finished h
  have few := hx.length_lt few
  have det := hx.deterministic few
  refine ⟨isDeterministic_iff.2 det, ?_, hx.start_finished, rfl, rfl, ?_⟩
  · exact unreachable_eq_nil_iff.2 fun d hd => hx.exists_reaches_of_mem_states few hd
  · intro d hd l
    exact det.exists_next_eq (hasState_iff.2 hd) l

/-- The five states of `forkedMerged`, to which its six edges lead. -/
theorem determinize_inspect_forked :
    forked.determinize (some defaultStateLimit) = .ok (forkedMerged, forkedReport) ∧
    forked.attainedCount < UInt32.size - 1 ∧
    forkedMerged.inspect.isDeterministic = true ∧ forkedMerged.inspect.unreachableStates = [] ∧
    forkedMerged.inspect.startState = 1 ∧ forkedMerged.inspect.totalStates = 5 ∧
    forkedMerged.inspect.totalTransitions = 6 ∧
    ∀ d ∈ forkedMerged.states, ∀ l, ∃ ns, forkedMerged.next d l = .ok ns ∧ ns.length ≤ 1 :=
  ⟨determinize_forked, few_forked, determinize_inspect determinize_forked few_forked⟩

/-- An inspection of the deterministic automaton reports a cycle exactly when the automaton has one
through a state that words lead to. If words lead to all its states, both inspections report the
same. -/
theorem determinize_hasCycles (h : a.determinize limit = .ok (dfa, report))
    (few : a.attainedCount < UInt32.size - 1) :
    (dfa.inspect.hasCycles = true ↔
      ∃ s, (∃ v, a.Reaches v s) ∧ ∃ w, w ≠ [] ∧ a.Path s w s) ∧
    (a.inspect.unreachableStates = [] → dfa.inspect.hasCycles = a.inspect.hasCycles) := by
  obtain ⟨x, hx, rfl, rfl⟩ := determinize_finished h
  have hcycles := hx.hasCycle_iff (hx.length_lt few)
  refine ⟨hcycles, fun hreached => ?_⟩
  rw [Bool.eq_iff_iff]
  refine hcycles.trans (Iff.trans ?_ hasCycle_iff.symm)
  refine exists_congr fun s => and_iff_right_of_imp fun hback => ?_
  exact unreachable_eq_nil_iff.1 hreached s hback.source_mem_states

/-- The gesture of `forked` that can be drawn out stays one that can be drawn out. -/
theorem determinize_hasCycles_forked :
    forked.determinize (some defaultStateLimit) = .ok (forkedMerged, forkedReport) ∧
    forked.attainedCount < UInt32.size - 1 ∧
    (forkedMerged.inspect.hasCycles = true ↔
      ∃ s, (∃ v, forked.Reaches v s) ∧ ∃ w, w ≠ [] ∧ forked.Path s w s) ∧
    forked.inspect.unreachableStates = [] ∧
    forkedMerged.inspect.hasCycles = forked.inspect.hasCycles ∧
    forked.inspect.hasCycles = true := by
  have hreached : forked.inspect.unreachableStates = [] := by decide +kernel
  obtain ⟨hcycles, hsame⟩ := determinize_hasCycles determinize_forked few_forked
  exact ⟨determinize_forked, few_forked, hcycles, hreached, hsame hreached, by decide +kernel⟩

end Automaton

end TouchAutomata
