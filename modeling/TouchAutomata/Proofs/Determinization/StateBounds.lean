import TouchAutomata.Proofs.Determinization.ReportedSets

/-!
# How many states a limit allows

A determinization makes no more states than it has found sets (`Finished.stateCount_le`), and the
limit is looked at for every set but that of the start state. So the limit is kept to, except when
it is zero and an edge leaves the start state (`determinize_states_le_iff`).
-/

set_option autoImplicit false

namespace TouchAutomata.Automaton

variable {a dfa : Automaton} {report : DeterminizationReport} {c : Nat}

/-- An automaton has no states exactly when it has no edges. -/
theorem stateCount_eq_zero_iff : a.stateCount = 0 ↔ a.edges = [] := by
  rw [stateCount, OrderedSet.size, List.length_eq_zero_iff, List.eq_nil_iff_forall_not_mem,
    List.eq_nil_iff_forall_not_mem]
  constructor
  · intro hnone e he
    exact hnone e.source (mem_states.2 ⟨e, he, .inl rfl⟩)
  · intro hnone s hs
    obtain ⟨e, he, -⟩ := mem_states.1 hs
    exact hnone e he

/-- There are no more states than a limit allows that is not zero. Under a limit of zero one state
is made, if an edge leaves the start state. -/
theorem determinize_states_le_iff (h : a.determinize (some c) = .ok (dfa, report)) :
    report.states ≤ max 1 c ∧
    (report.states ≤ c ↔ 0 < c ∨ ∀ e ∈ a.edges, e.source ≠ a.start) := by
  obtain ⟨x, hx, rfl, rfl⟩ := determinize_finished h
  have hfound : x.found.length ≤ max 1 c := hx.length_le
  have hmax : x.finished.stateCount ≤ max 1 c := (hx.stateCount_le rfl).trans hfound
  refine ⟨hmax, ?_⟩
  rcases Nat.eq_zero_or_pos c with rfl | hpos
  · -- nothing but the set of the start state was found, so there are numbers enough
    have hfew : x.found.length < UInt32.size := hfound.trans_lt (by decide)
    have hstates : x.report.states = x.finished.stateCount := rfl
    rw [hstates, Nat.le_zero, stateCount_eq_zero_iff, hx.edges_eq_nil_iff hfew]
    simp
  · rw [max_eq_right hpos] at hmax
    exact iff_of_true hmax (.inl hpos)

/-- The limit of five is met exactly. -/
theorem determinize_states_le_iff_forked :
    forked.determinize (some 5) = .ok (forkedMerged, forkedReport) ∧
    forkedReport.states ≤ max 1 5 ∧
    (forkedReport.states ≤ 5 ↔ 0 < 5 ∨ ∀ e ∈ forked.edges, e.source ≠ forked.start) := by
  have hfive : forked.determinize (some 5) = .ok (forkedMerged, forkedReport) := by
    decide +kernel
  exact ⟨hfive, determinize_states_le_iff hfive⟩

/-- A touch that leads from the start state back to it. -/
def spinning : Automaton := (∅ : Automaton).add ⟨1, 1, ⟨"D1", [], ∅⟩⟩

/-- The one state of `spinning` is found before a limit of zero is looked at. -/
theorem zero_limit_exceeded :
    ∃ report, spinning.determinize (some 0) = .ok (spinning, report) ∧ ¬ report.states ≤ 0 := by
  refine ⟨⟨1, 1, OrderedMap.insert ∅ 1 {1}⟩, ?_, ?_⟩
  · decide +kernel
  · decide

end TouchAutomata.Automaton
