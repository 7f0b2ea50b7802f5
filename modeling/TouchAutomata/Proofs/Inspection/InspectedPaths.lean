import TouchAutomata.Inspection.Basic
import TouchAutomata.Proofs.Automaton.AcyclicPaths
import TouchAutomata.Proofs.Inspection.Cycles
import TouchAutomata.Proofs.Inspection.ReachableStates

/-!
# What an inspection tells of the paths

The unreachable states of an inspection are those that no path from the start state leads to, and
its largest number of edges is the least bound on the edges that leave one state
(`inspect_unreachableStates_maxOutDegree`). It reports a cycle exactly when a path leads from some
state back to it. If it reports none, paths are short and lead to accepting states
(`inspect_hasCycles_iff`).
-/

set_option autoImplicit false

namespace TouchAutomata.Automaton

variable {a : Automaton} {s : StateId}

/-! ## Unreachable states -/

/-- The unreachable states are listed in ascending order. -/
theorem pairwise_unreachable (a : Automaton) : a.unreachable.Pairwise (· < ·) :=
  (a.states.ascending.sublist List.filter_sublist).imp Std.compare_eq_lt.1

/-- Without its start state an automaton has unreachable states only. -/
theorem unreachable_of_start_not_mem (h : a.start ∉ a.states) :
    a.unreachable = a.states.toList := by
  apply List.filter_eq_self.2
  intro s _
  have hnone : s ∉ a.reachable := fun hs => h (hasState_iff.1 (mem_reachable.1 hs).1)
  exact decide_eq_true hnone

/-! ## The largest number of edges -/

/-- The greatest of some numbers is bounded by what bounds them all. -/
theorem foldl_max_le_iff {ns : List Nat} {m n : Nat} :
    ns.foldl max m ≤ n ↔ m ≤ n ∧ ∀ k ∈ ns, k ≤ n := by
  induction ns generalizing m with
  | nil => simp
  | cons k ns ih => rw [List.foldl_cons, ih, Nat.max_le, List.forall_mem_cons, and_assoc]

/-- The greatest number of leaving edges is bounded by what bounds that of every state. -/
theorem maxOutDegree_le_iff {n : Nat} :
    a.maxOutDegree ≤ n ↔ ∀ s ∈ a.states, (a.leaving s).length ≤ n := by
  rw [maxOutDegree, foldl_max_le_iff, and_iff_right (Nat.zero_le n), List.forall_mem_map]
  rfl

/-- So many edges leave one of the states, if there are any. -/
theorem exists_length_leaving_eq (hs : s ∈ a.states) :
    ∃ t ∈ a.states, (a.leaving t).length = a.maxOutDegree := by
  by_contra hnone
  push Not at hnone
  have hbound : ∀ t ∈ a.states, (a.leaving t).length ≤ a.maxOutDegree :=
    maxOutDegree_le_iff.1 (Nat.le_refl _)
  -- a smaller number bounds the edges of all states then, unless there is none
  have hsmaller : a.maxOutDegree ≤ a.maxOutDegree - 1 := by
    apply maxOutDegree_le_iff.2
    intro t ht
    have hle := hbound t ht
    have hne := hnone t ht
    omega
  have hle := hbound s hs
  have hne := hnone s hs
  omega

/-! ## Inspections -/

/-- An inspection reports no cycle exactly when no word leads from a state back to it. -/
theorem hasCycle_eq_false_iff : a.hasCycle = false ↔ a.Acyclic := by
  rw [← Bool.not_eq_true, hasCycle_iff, not_exists]
  rfl

/-- The unreachable states are listed in ascending order, each once: they are the states that no
path from the start state leads to, and all states if the start state is missing. The largest number
of edges bounds the edges that leave one state; it is met, or else there are no states and it is
zero. -/
theorem inspect_unreachableStates_maxOutDegree (a : Automaton) :
    a.inspect.unreachableStates.Pairwise (· < ·) ∧
    (∀ s, s ∈ a.inspect.unreachableStates ↔ s ∈ a.states ∧ ¬ ∃ w, a.Path a.start w s) ∧
    (a.start ∉ a.states → a.inspect.unreachableStates = a.states.toList) ∧
    (∀ s ∈ a.states, (a.leaving s).length ≤ a.inspect.maxOutDegree) ∧
    ((∃ s ∈ a.states, (a.leaving s).length = a.inspect.maxOutDegree) ∨
      (∀ s, s ∉ a.states) ∧ a.inspect.maxOutDegree = 0) := by
  refine ⟨pairwise_unreachable a, fun s => mem_unreachable, unreachable_of_start_not_mem,
    maxOutDegree_le_iff.1 (Nat.le_refl _), ?_⟩
  by_cases hstates : ∃ s, s ∈ a.states
  · obtain ⟨s, hs⟩ := hstates
    exact .inl (exists_length_leaving_eq hs)
  · push Not at hstates
    have hzero : a.maxOutDegree ≤ 0 := maxOutDegree_le_iff.2 fun s hs => absurd hs (hstates s)
    exact .inr ⟨hstates, Nat.le_zero.1 hzero⟩

/-- A gesture that forks, and one beside it. -/
def apart : Automaton :=
  (∅ : Automaton).addAll
    [⟨1, 2, ⟨"D1", [], ∅⟩⟩, ⟨1, 3, ⟨"D1", [], ∅⟩⟩, ⟨5, 6, ⟨"U1", [], ∅⟩⟩]

/-- With a start state that is not there none of the five states can be reached. -/
theorem inspect_unreachableStates_maxOutDegree_apart :
    (apart.withStart 9).start ∉ (apart.withStart 9).states ∧
    (apart.withStart 9).inspect.unreachableStates = (apart.withStart 9).states.toList ∧
    (apart.withStart 9).states.toList = [1, 2, 3, 5, 6] ∧
    (apart.leaving 1).length ≤ (apart.withStart 9).inspect.maxOutDegree := by
  have hstart : (apart.withStart 9).start ∉ (apart.withStart 9).states := by decide +kernel
  obtain ⟨-, -, hall, hbound, -⟩ := inspect_unreachableStates_maxOutDegree (apart.withStart 9)
  exact ⟨hstart, hall hstart, by decide +kernel, hbound 1 (by decide +kernel)⟩

/-- An inspection reports a cycle exactly when a word that is not empty leads from some state back
to it. If it reports none and there are states, every path has fewer edges than there are states, a
path leads from every state to one that accepts, and so some state accepts. -/
theorem inspect_hasCycles_iff (a : Automaton) :
    (a.inspect.hasCycles = true ↔ ∃ s ∈ a.states, ∃ w, w ≠ [] ∧ a.Path s w s) ∧
    (a.inspect.hasCycles = false → a.isEmpty = false →
      (∀ s w t, a.Path s w t → w.length < a.inspect.totalStates) ∧
      (∀ s ∈ a.states, ∃ w t, a.Path s w t ∧ a.accepts t = true) ∧
      a.inspect.acceptStates ≠ []) := by
  constructor
  · refine hasCycle_iff.trans (exists_congr fun s => ?_)
    exact (and_iff_right_of_imp Leads.source_mem_states).symm
  · intro hnone hedges
    have acyclic : a.Acyclic := hasCycle_eq_false_iff.1 hnone
    obtain ⟨e, he⟩ := List.exists_mem_of_ne_nil a.edges (by simpa [isEmpty] using hedges)
    have hsource : e.source ∈ a.states := hasState_iff.1 (hasState_source he)
    refine ⟨fun s w t hpath => ?_, fun s => acyclic.exists_path_accepts, ?_⟩
    · by_cases hw : w = []
      · rw [hw]
        exact acyclic.length_lt hsource (.nil e.source)
      · exact acyclic.length_lt (Leads.source_mem_states ⟨w, hw, hpath⟩) hpath
    · obtain ⟨w, t, -, ht⟩ := acyclic.exists_path_accepts hsource
      have hstate : t ∈ a.states := hasState_iff.1 (accepts_iff.1 ht).1
      exact List.ne_nil_of_mem (List.mem_filter.2 ⟨hstate, ht⟩)

/-- No path of `apart` has five edges or more. -/
theorem inspect_hasCycles_iff_apart :
    apart.inspect.hasCycles = false ∧ apart.isEmpty = false ∧
    (∀ s w t, apart.Path s w t → w.length < apart.inspect.totalStates) ∧
    apart.inspect.totalStates = 5 ∧
    (∀ s ∈ apart.states, ∃ w t, apart.Path s w t ∧ apart.accepts t = true) ∧
    apart.inspect.acceptStates ≠ [] := by
  have hnone : apart.inspect.hasCycles = false := by decide +kernel
  have hedges : apart.isEmpty = false := by decide +kernel
  obtain ⟨hshort, haccepts, hsome⟩ := (inspect_hasCycles_iff apart).2 hnone hedges
  exact ⟨hnone, hedges, hshort, by decide +kernel, haccepts, hsome⟩

end TouchAutomata.Automaton
