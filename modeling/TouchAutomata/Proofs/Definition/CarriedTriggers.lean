import TouchAutomata.Proofs.Definition.BuiltEdges
import TouchAutomata.Proofs.Determinization.DeterminizationOutcome

/-!
# From the triggers of a definition to those of the deterministic automaton

The edges of a definition that have ends and label in common are kept once, with the triggers of
the first (`mem_edges_build`), and those that have only the source and the label in common are
merged. So the deterministic automaton has an edge for each edge of the definition, and as long as
no two sets share a number it carries the triggers of the kept ones
(`determinize_carries_triggers`).
-/

set_option autoImplicit false

namespace TouchAutomata

namespace Definition

variable {d : Definition} {policy : Policy} {a dfa : Automaton} {limit : StateLimit}
variable {report : DeterminizationReport} {x : DefinedEdge} {S : StateSet} {q : StateId}

/-- For each edge of the definition and each state whose set its source is in, an edge with its
label leaves the state. While there are numbers enough for the sets, this edge carries the triggers
of the edges of the definition that are the first with their ends and their label, and have this
label and a source in the set. -/
theorem determinize_carries_triggers (hbuild : d.build policy = .ok a)
    (h : a.determinize limit = .ok (dfa, report)) (hx : x ∈ d.edges)
    (hS : report.stateSets.get? q = some S) (hs : x.source ∈ S) :
    (∃ f ∈ dfa.edges, f.source = q ∧ f.label = x.label) ∧
    (a.attainedCount ≤ UInt32.size → ∀ f ∈ dfa.edges, f.source = q → f.label = x.label →
      (d.Keeps x → ∀ i ∈ x.triggers, i ∈ f.touch.triggers) ∧
      ∀ i, i ∈ f.touch.triggers ↔
        ∃ y, d.Keeps y ∧ y.source ∈ S ∧ y.label = x.label ∧ i ∈ y.triggers) := by
  obtain ⟨r, hr, rfl, rfl⟩ := Automaton.determinize_finished h
  have hfound := hr.mem_of_get?_report hS
  constructor
  · have htarget : x.target ∈ a.afterLabel S x.label :=
      (mem_afterLabel_build hbuild).2 ⟨x, hx, hs, rfl, rfl⟩
    exact hr.exists_edge_label hfound ⟨_, htarget⟩
  · rintro few f hf rfl hlabel
    have hcarried : ∀ i, i ∈ f.touch.triggers ↔
        ∃ y, d.Keeps y ∧ y.source ∈ S ∧ y.label = x.label ∧ i ∈ y.triggers := by
      intro i
      obtain ⟨T, g, hT, hg, -, htouch⟩ := hr.exists_task rfl hf
      obtain rfl := (Exploration.Stage.numbered hr).set_unique (hr.length_eq.trans_le few) hT hfound
      rw [← hlabel, Edge.label, htouch, Automaton.triggers_of_mem_labelGroups hg]
      constructor
      · rintro ⟨e, he, hsource, hel, hi⟩
        obtain ⟨y, hy, rfl⟩ := (mem_edges_build hbuild).1 he
        exact ⟨y, hy, hsource, hel, DefinedEdge.mem_triggers_toEdge.1 hi⟩
      · rintro ⟨y, hy, hsource, hyl, hi⟩
        exact ⟨y.toEdge, (mem_edges_build hbuild).2 ⟨y, hy, rfl⟩, hsource, hyl,
          DefinedEdge.mem_triggers_toEdge.2 hi⟩
    exact ⟨fun hkeeps i hi => (hcarried i).2 ⟨x, hkeeps, hs, rfl, hi⟩, hcarried⟩

/-- One edge written in two ways, and another one with the same label. -/
def respelled : Definition where
  edges := [⟨"D1", 1, 2, [1]⟩, ⟨"D1:", 1, 2, [2]⟩, ⟨"D1", 1, 3, [3]⟩]

/-- The automaton of `respelled`. -/
def respelledBuilt : Automaton :=
  (∅ : Automaton).addAll [⟨1, 2, ⟨"D1", [], .ofList [1]⟩⟩, ⟨1, 3, ⟨"D1", [], .ofList [3]⟩⟩]

/-- The deterministic automaton of `respelled`. -/
def respelledMerged : Automaton :=
  (∅ : Automaton).addAll [⟨1, 2, ⟨"D1", [], .ofList [1, 3]⟩⟩]

/-- The report on `respelled`. -/
def respelledReport : DeterminizationReport where
  states := 2
  transitions := 1
  stateSets := ((∅ : OrderedMap StateId StateSet).insert 1 {1}).insert 2 (.ofList [2, 3])

/-- The automaton of the example. -/
theorem build_respelled : respelled.build .strict = .ok respelledBuilt := by decide +kernel

/-- The deterministic automaton of the example, and its report. -/
theorem determinize_respelled : respelledBuilt.determinize (some defaultStateLimit) =
    .ok (respelledMerged, respelledReport) := by
  decide +kernel

/-- The numbers are enough for the sets of the example. -/
theorem few_respelled : respelledBuilt.attainedCount ≤ UInt32.size :=
  (Automaton.attainedCount_le_of_limit determinize_respelled).trans (by decide)

/-- The merged edge carries the triggers of the first and the last edge of `respelled`. -/
theorem determinize_carries_triggers_respelled :
    respelled.build .strict = .ok respelledBuilt ∧
    respelledBuilt.determinize (some defaultStateLimit) =
      .ok (respelledMerged, respelledReport) ∧
    ⟨"D1", 1, 3, [3]⟩ ∈ respelled.edges ∧ respelledReport.stateSets.get? 1 = some {1} ∧
    1 ∈ ({1} : StateSet) ∧ (∃ f ∈ respelledMerged.edges, f.source = 1 ∧
      f.label = DefinedEdge.label ⟨"D1", 1, 3, [3]⟩) ∧
    respelledBuilt.attainedCount ≤ UInt32.size ∧
    ⟨1, 2, ⟨"D1", [], .ofList [1, 3]⟩⟩ ∈ respelledMerged.edges ∧
    respelled.Keeps ⟨"D1", 1, 3, [3]⟩ ∧
    (∀ i ∈ [3], i ∈ (OrderedSet.ofList [1, 3] : Triggers)) ∧
    ∀ i, i ∈ OrderedSet.ofList [1, 3] ↔
      ∃ y, respelled.Keeps y ∧ y.source ∈ ({1} : StateSet) ∧
        y.label = DefinedEdge.label ⟨"D1", 1, 3, [3]⟩ ∧ i ∈ y.triggers := by
  have hx : ⟨"D1", 1, 3, [3]⟩ ∈ respelled.edges := by decide +kernel
  have hS : respelledReport.stateSets.get? 1 = some {1} := by decide +kernel
  have hs : (1 : StateId) ∈ ({1} : StateSet) := by decide
  have hf : ⟨1, 2, ⟨"D1", [], .ofList [1, 3]⟩⟩ ∈ respelledMerged.edges := by decide +kernel
  have hkeeps : respelled.Keeps ⟨"D1", 1, 3, [3]⟩ := by decide +kernel
  obtain ⟨hlabel, hcarried⟩ :=
    determinize_carries_triggers build_respelled determinize_respelled hx hS hs
  obtain ⟨hown, hall⟩ := hcarried few_respelled _ hf rfl (by decide +kernel)
  exact ⟨build_respelled, determinize_respelled, hx, hS, hs, hlabel, few_respelled, hf, hkeeps,
    hown hkeeps, hall⟩

/-- The edge that is written in another way is not kept, and its trigger is lost. -/
theorem respelled_trigger_lost :
    respelled.build .strict = .ok respelledBuilt ∧
    respelledBuilt.determinize (some defaultStateLimit) =
      .ok (respelledMerged, respelledReport) ∧
    ⟨"D1:", 1, 2, [2]⟩ ∈ respelled.edges ∧ respelledReport.stateSets.get? 1 = some {1} ∧
    1 ∈ ({1} : StateSet) ∧
    ¬ ∃ f ∈ respelledMerged.edges, f.source = 1 ∧
      f.label = DefinedEdge.label ⟨"D1:", 1, 2, [2]⟩ ∧ ∀ i ∈ [2], i ∈ f.touch.triggers := by
  simp only [List.forall_mem_singleton]
  refine ⟨build_respelled, determinize_respelled, ?_, ?_, ?_, ?_⟩
  all_goals decide +kernel

end Definition

end TouchAutomata
