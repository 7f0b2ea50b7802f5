import TouchAutomata.Proofs.Automaton.Determinism
import TouchAutomata.Proofs.Automaton.Renumbering
import TouchAutomata.Proofs.Determinization.AcceptedWords
import TouchAutomata.Proofs.Determinization.ReportedSets
import TouchAutomata.Proofs.Determinization.StateLimits

/-!
# Determinization of deterministic automata

In a deterministic automaton a group has one edge and an attained set has one state, so nothing is
merged: the states of the result stand one to one for the states that words lead to, with the same
edges between them (`Finished.renumbers`). The limit then counts these states
(`determinize_of_deterministic`).
-/

set_option autoImplicit false

namespace TouchAutomata

namespace Automaton

variable {a : Automaton} {s : StateId} {g : LabelGroup}

/-- A group of one state of a deterministic automaton has one edge. -/
theorem Deterministic.exists_edge_of_mem_labelGroups (h : a.Deterministic)
    (hg : g ∈ (a.labelGroups {s}).values) :
    ∃ e ∈ a.edges, e.source = s ∧ e.label = g.touch.label ∧ g = ⟨e.touch, {e.target}⟩ := by
  obtain ⟨e, he, hlabel, htouch⟩ := LabelGroup.exists_touch_eq (gathers_of_mem_labelGroups hg).1
  obtain ⟨he, hs⟩ := mem_leavingAny.1 he
  have hsource : e.source = s := mem_singleton_state.1 hs
  have honly : ∀ f ∈ a.edges, f.source ∈ ({s} : StateSet) → f.label = g.touch.label → f = e := by
    intro f hf hfs hfl
    apply h.edge_unique hf he
    · rw [mem_singleton_state.1 hfs, hsource]
    · rw [hfl, hlabel]
  have htriggers : g.touch.triggers = e.touch.triggers := by
    refine OrderedSet.ext_mem fun i => ?_
    rw [triggers_of_mem_labelGroups hg]
    constructor
    · rintro ⟨f, hf, hfs, hfl, hi⟩
      rw [honly f hf hfs hfl] at hi
      exact hi
    · exact fun hi => ⟨e, he, hs, hlabel, hi⟩
  have htargets : g.targets = {e.target} := by
    refine OrderedSet.ext_mem fun t => ?_
    rw [targets_of_mem_labelGroups hg, mem_afterLabel, mem_singleton_state]
    constructor
    · rintro ⟨f, hf, hfs, hfl, rfl⟩
      rw [honly f hf hfs hfl]
    · rintro rfl
      exact ⟨e, he, hs, hlabel, rfl⟩
  rw [htriggers] at htouch
  have hsame : g.touch = e.touch := htouch
  exact ⟨e, he, hsource, hlabel, by rw [← hsame, ← htargets]⟩

/-- The groups of one state are its edges, each with its target alone. -/
theorem Deterministic.mem_labelGroups_singleton (h : a.Deterministic) :
    g ∈ (a.labelGroups {s}).values ↔
      ∃ e ∈ a.edges, e.source = s ∧ g = ⟨e.touch, {e.target}⟩ := by
  constructor
  · intro hg
    obtain ⟨e, he, hsource, -, heq⟩ := h.exists_edge_of_mem_labelGroups hg
    exact ⟨e, he, hsource, heq⟩
  · rintro ⟨e, he, rfl, rfl⟩
    have htarget : e.target ∈ a.afterLabel {e.source} e.label :=
      mem_afterLabel.2 ⟨e, he, mem_singleton_state.2 rfl, rfl, rfl⟩
    obtain ⟨g, hg, hlabel⟩ := exists_mem_labelGroups_iff.2 ⟨_, htarget⟩
    obtain ⟨d, hd, hsource, hdl, rfl⟩ := h.exists_edge_of_mem_labelGroups hg
    obtain rfl := h.edge_unique hd he hsource (hdl.trans hlabel)
    exact hg

end Automaton

namespace Exploration

variable {a : Automaton} {limit : StateLimit} {x : Exploration}
variable {S : StateSet} {d d' n : StateId} {touch : Touch}

/-- Every set that is found has one state, and a word leads to this state. -/
theorem Finished.exists_eq_singleton (h : Finished a limit ∅ x) (det : a.Deterministic)
    (hS : (S, n) ∈ x.found) : ∃ s, (∃ w, a.Reaches w s) ∧ S = {s} :=
  det.attains_iff.1 (Stage.attained h _ hS)

/-- The edges between two states are those between their numbers, with the same touches. -/
theorem Finished.mem_edges_iff (h : Finished a limit ∅ x) (few : x.found.length < UInt32.size)
    (det : a.Deterministic) {s t : StateId} (hs : ({s}, d) ∈ x.found) (ht : ({t}, d') ∈ x.found) :
    ⟨d, d', touch⟩ ∈ x.finished.edges ↔ ⟨s, t, touch⟩ ∈ a.edges := by
  have hnumbered := Stage.numbered h
  rw [h.mem_edges rfl few]
  constructor
  · rintro ⟨S, g, hS, hg, htarget, rfl⟩
    obtain rfl := hnumbered.set_unique few.le hS hs
    obtain ⟨e, he, rfl, rfl⟩ := det.mem_labelGroups_singleton.1 hg
    obtain rfl := Automaton.singleton_injective (hnumbered.set_unique few.le htarget ht)
    exact he
  · intro he
    exact ⟨{s}, ⟨touch, {t}⟩, hs, det.mem_labelGroups_singleton.2 ⟨_, he, rfl, rfl⟩, ht, rfl⟩

/-- Every state of the result stands for one state, which can be told from it. -/
theorem Finished.exists_members (h : Finished a limit ∅ x) (det : a.Deterministic) :
    ∃ f : StateId → StateId, ∀ d ∈ x.finished.states, ({f d}, d) ∈ x.found := by
  have hmember : ∀ d, ∃ s, d ∈ x.finished.states → ({s}, d) ∈ x.found := by
    intro d
    by_cases hd : d ∈ x.finished.states
    · obtain ⟨S, hS⟩ := h.exists_set rfl (Automaton.hasState_iff.2 hd)
      obtain ⟨s, -, rfl⟩ := h.exists_eq_singleton det hS
      exact ⟨s, fun _ => hS⟩
    · exact ⟨d, fun hd' => absurd hd' hd⟩
  choose f hf using hmember
  exact ⟨f, hf⟩

variable {f : StateId → StateId}

/-- The report holds under each state of the result the one state it stands for. -/
theorem Finished.get?_report_of_members (h : Finished a limit ∅ x)
    (few : x.found.length < UInt32.size) (hf : ∀ d ∈ x.finished.states, ({f d}, d) ∈ x.found) :
    x.report.stateSets.get? d = some S ↔ d ∈ x.finished.states ∧ S = {f d} := by
  rw [h.get?_report few, Automaton.hasState_iff]
  constructor
  · rintro ⟨hS, hd⟩
    exact ⟨hd, (Stage.numbered h).set_unique few.le hS (hf d hd)⟩
  · rintro ⟨hd, rfl⟩
    exact ⟨hf d hd, hd⟩

/-- The result of exploring a deterministic automaton is this automaton with other numbers, if an
edge leaves the start state. -/
theorem Finished.renumbers (h : Finished a limit ∅ x) (few : x.found.length < UInt32.size)
    (det : a.Deterministic) (hstart : ∃ e ∈ a.edges, e.source = a.start)
    (hf : ∀ d ∈ x.finished.states, ({f d}, d) ∈ x.found) : Renumbers f x.finished a := by
  have hstate : ∀ {S d}, (S, d) ∈ x.found → d ∈ x.finished.states := fun hS =>
    Automaton.hasState_iff.1 (h.hasState_of_mem_found few hstart hS)
  have hmember : ∀ {s d}, ({s}, d) ∈ x.found → f d = s := fun hs =>
    Automaton.singleton_injective ((Stage.numbered h).set_unique few.le (hf _ (hstate hs)) hs)
  constructor
  case start_eq =>
    apply hmember
    rw [h.start_finished]
    exact Stage.mem_start h
  case bijOn =>
    refine ⟨?_, ?_, ?_⟩
    · intro d hd
      obtain ⟨s, hs, heq⟩ := h.exists_eq_singleton det (hf d hd)
      rw [Automaton.singleton_injective heq]
      exact hs
    · intro d hd e he hde
      have hfound := hf d hd
      rw [hde] at hfound
      exact (Stage.numbered h).number_unique hfound (hf e he)
    · intro s hs
      obtain ⟨d, hd⟩ := h.exists_mem_found_iff.2 (det.attains_iff.2 ⟨s, hs, rfl⟩)
      exact ⟨d, hstate hd, hmember hd⟩
  case edge_iff =>
    intro d hd e he touch
    exact h.mem_edges_iff few det (hf d hd) (hf e he)
  case accepts_eq =>
    intro d hd
    rw [Bool.eq_iff_iff, h.accepts_iff few (hf d hd) (Automaton.hasState_iff.2 hd)]
    constructor
    · exact fun hall => hall _ (Automaton.mem_singleton_state.2 rfl)
    · intro haccepts s hs
      rw [Automaton.mem_singleton_state.1 hs]
      exact haccepts

end Exploration

namespace Automaton

variable {a : Automaton}

/-- Determinization gives a deterministic automaton other numbers and changes nothing else. It
succeeds under the limits that allow all states that words lead to. -/
theorem determinize_of_deterministic (det : a.inspect.isDeterministic = true)
    (hstart : ∃ e ∈ a.edges, e.source = a.start) (few : a.reachableCount < UInt32.size - 1) :
    (∀ limit dfa report, a.determinize limit = .ok (dfa, report) →
      ∃ f, (∀ d S, report.stateSets.get? d = some S ↔ d ∈ dfa.states ∧ S = {f d}) ∧
        Renumbers f dfa a) ∧
    ∀ c, 1 ≤ c → ((∃ dfa report, a.determinize (some c) = .ok (dfa, report)) ↔
      a.reachableCount ≤ c) := by
  have hdet : a.Deterministic := isDeterministic_iff.1 det
  rw [← hdet.attainedCount_eq] at few ⊢
  constructor
  · intro limit dfa report h
    obtain ⟨x, hx, rfl, rfl⟩ := determinize_finished h
    have few := hx.length_lt few
    obtain ⟨f, hf⟩ := hx.exists_members hdet
    exact ⟨f, fun d S => hx.get?_report_of_members few hf, hx.renumbers few hdet hstart hf⟩
  · intro c hc
    obtain ⟨e, he, hsource⟩ := hstart
    have hstate : a.hasState a.start = true := hsource ▸ hasState_source he
    rw [← Prod.exists (p := fun r => a.determinize (some c) = .ok r),
      exists_determinize_iff hstate, max_eq_right hc]

/-- A gesture that can be drawn out, and a state that leads to its start state. -/
def drawn : Automaton :=
  ((∅ : Automaton).addAll
    [⟨9, 7, ⟨"D1", [], .ofList [1]⟩⟩, ⟨7, 7, ⟨"M1", [], ∅⟩⟩, ⟨7, 4, ⟨"U1", [], .ofList [2]⟩⟩,
      ⟨3, 9, ⟨"D2", [], ∅⟩⟩]).withStart 9

/-- The states of `drawn` that words lead to, with other numbers. -/
def drawnRenumbered : Automaton :=
  (∅ : Automaton).addAll
    [⟨1, 2, ⟨"D1", [], .ofList [1]⟩⟩, ⟨2, 2, ⟨"M1", [], ∅⟩⟩, ⟨2, 3, ⟨"U1", [], .ofList [2]⟩⟩]

/-- The report on `drawn`. -/
def drawnReport : DeterminizationReport where
  states := 3
  transitions := 3
  stateSets := (((∅ : OrderedMap StateId StateSet).insert 1 {9}).insert 2 {7}).insert 3 {4}

/-- A limit of three allows the gesture to be numbered anew. -/
theorem determinize_drawn : drawn.determinize (some 3) = .ok (drawnRenumbered, drawnReport) := by
  decide +kernel

/-- Three of the four states of `drawn` get numbers, and a limit of three is enough. -/
theorem determinize_of_deterministic_drawn :
    drawn.inspect.isDeterministic = true ∧ (∃ e ∈ drawn.edges, e.source = drawn.start) ∧
    drawn.reachableCount < UInt32.size - 1 ∧
    drawn.determinize (some 3) = .ok (drawnRenumbered, drawnReport) ∧
    (∃ f, (∀ d S, drawnReport.stateSets.get? d = some S ↔
        d ∈ drawnRenumbered.states ∧ S = {f d}) ∧ Renumbers f drawnRenumbered drawn) ∧
    drawn.reachableCount ≤ 3 := by
  have det : drawn.inspect.isDeterministic = true := by decide +kernel
  have hstart : ∃ e ∈ drawn.edges, e.source = drawn.start := by decide +kernel
  have few : drawn.reachableCount < UInt32.size - 1 := by
    have hdet : drawn.Deterministic := isDeterministic_iff.1 det
    rw [← hdet.attainedCount_eq]
    exact (attainedCount_le_of_limit determinize_drawn).trans_lt (by decide)
  obtain ⟨hrenumbers, hlimit⟩ := determinize_of_deterministic det hstart few
  exact ⟨det, hstart, few, determinize_drawn, hrenumbers _ _ _ determinize_drawn,
    (hlimit 3 (by decide)).1 ⟨_, _, determinize_drawn⟩⟩

end Automaton

end TouchAutomata
