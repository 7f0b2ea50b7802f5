import TouchAutomata.Proofs.Determinization.WordSimulation

/-!
# Merged triggers

The touches with one label that leave a set of states become one touch, and adding an edge to an
automaton can lose the triggers of its touch. In a determinization none is lost: an edge of the
deterministic automaton carries the triggers of exactly the edges that it stands for
(`determinize_triggers`).
-/

set_option autoImplicit false

namespace TouchAutomata

/-- An edge that leaves the number of a set carries the triggers of the edges with its label that
leave the set. -/
theorem Exploration.Finished.mem_triggers_iff {a target : Automaton} {limit : StateLimit}
    {x : Exploration} {S : StateSet} {e : Edge} (h : Finished a limit target x)
    (no_edges : target.edges = []) (few : x.found.length < UInt32.size)
    (he : e ∈ x.finished.edges) (hS : (S, e.source) ∈ x.found) (i : Int32) :
    i ∈ e.touch.triggers ↔
      ∃ f ∈ a.edges, f.source ∈ S ∧ f.label = e.label ∧ i ∈ f.touch.triggers := by
  obtain ⟨T, g, hT, hg, -, htouch⟩ := (h.mem_edges no_edges few).1 he
  obtain rfl := (Stage.numbered h).set_unique few.le hS hT
  rw [Edge.label, htouch]
  exact Automaton.triggers_of_mem_labelGroups hg i

namespace Automaton

variable {a dfa : Automaton} {limit : StateLimit} {report : DeterminizationReport}

/-- The triggers of an edge of the deterministic automaton are those of the edges with its label
that leave a state of the set that its source stands for. After any word that leads to its
source, these are the edges with its label that leave a state that the word leads to. -/
theorem determinize_triggers (h : a.determinize limit = .ok (dfa, report))
    (few : a.attainedCount < UInt32.size - 1) {e : Edge} (he : e ∈ dfa.edges) :
    (∃ S, report.stateSets.get? e.source = some S ∧
      ∀ i, i ∈ e.touch.triggers ↔
        ∃ f ∈ a.edges, f.source ∈ S ∧ f.label = e.label ∧ i ∈ f.touch.triggers) ∧
    ∀ v, dfa.Reaches v e.source →
      ∀ i, i ∈ e.touch.triggers ↔
        ∃ f ∈ a.edges, a.Reaches v f.source ∧ f.label = e.label ∧ i ∈ f.touch.triggers := by
  obtain ⟨x, hx, rfl, rfl⟩ := determinize_finished h
  have few := hx.length_lt few
  have hsource : x.finished.hasState e.source = true :=
    hasState_iff.2 (mem_states.2 ⟨e, he, .inl rfl⟩)
  constructor
  · obtain ⟨S, hS⟩ := hx.exists_set rfl hsource
    exact ⟨S, (hx.get?_report few).2 ⟨hS, hsource⟩, hx.mem_triggers_iff rfl few he hS⟩
  · intro v hv i
    rw [hx.mem_triggers_iff rfl few he ((hx.reaches_iff few).1 hv)]
    simp only [mem_reached]

/-- The first label of both gestures carries the triggers of both. -/
theorem determinize_triggers_forked :
    forked.determinize (some defaultStateLimit) = .ok (forkedMerged, forkedReport) ∧
    forked.attainedCount < UInt32.size - 1 ∧
    ⟨1, 2, ⟨"D1", [], .ofList [1, 2, 3]⟩⟩ ∈ forkedMerged.edges ∧
    (∃ S, forkedReport.stateSets.get? 1 = some S ∧
      ∀ i, i ∈ OrderedSet.ofList [1, 2, 3] ↔
        ∃ f ∈ forked.edges, f.source ∈ S ∧ f.label = "D1" ∧ i ∈ f.touch.triggers) ∧
    ∀ i, i ∈ OrderedSet.ofList [1, 2, 3] ↔
      ∃ f ∈ forked.edges, forked.Reaches [] f.source ∧ f.label = "D1" ∧
        i ∈ f.touch.triggers := by
  have hmem : ⟨1, 2, ⟨"D1", [], .ofList [1, 2, 3]⟩⟩ ∈ forkedMerged.edges := by decide +kernel
  obtain ⟨hset, hword⟩ := determinize_triggers determinize_forked few_forked hmem
  exact ⟨determinize_forked, few_forked, hmem, hset, hword [] (path_nil.2 (by decide))⟩

end Automaton

end TouchAutomata
