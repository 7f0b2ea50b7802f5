import TouchAutomata.Proofs.Determinization.FinishedExploration

/-!
# What a determinization comes from

A determinization that succeeds hands out what a finished exploration has found and laid
(`determinize_finished`). The sets under their numbers are in the report as far as the numbers
are states (`Finished.get?_report`), and words lead in the deterministic automaton from set to set
(`Finished.reaches_iff`).
-/

set_option autoImplicit false

namespace TouchAutomata

namespace Automaton

variable {a dfa : Automaton} {limit : StateLimit} {report : DeterminizationReport}

/-- Without edges nothing is to be followed. -/
theorem tasksOf_eq_nil (no_edges : a.edges = []) (found : List (StateSet × StateId)) :
    Exploration.tasksOf a found = [] := by
  rw [List.eq_nil_iff_forall_not_mem]
  rintro ⟨n, g⟩ ht
  obtain ⟨S, -, hg⟩ := Exploration.mem_tasksOf.1 ht
  obtain ⟨e, he, -⟩ := (gathers_of_mem_labelGroups hg).2.some_edge
  simp [no_edges] at he

/-- Where there is nothing to follow, the exploration that has taken the set of the start state
is finished. -/
theorem finished_of_no_edges (no_edges : a.edges = []) :
    Exploration.Finished a limit ∅ { Exploration.begin a.start ∅ with pending := [] } := by
  have hbegun : Exploration.Stage a limit ∅ [] [] [] (.begin a.start ∅) := .begun
  have htake := hbegun.take rfl
  rw [tasksOf_eq_nil no_edges] at htake
  exact htake.finished rfl

/-- An automaton without edges can be built into. -/
theorem determinizeInto_of_isEmpty {target : Automaton} (htarget : target.isEmpty = true) :
    a.determinizeInto target limit =
      if a.isEmpty then (.ok ⟨0, 0, ∅⟩, target)
      else
        match Exploration.ofAutomaton a limit target with
        | .error halt => (.error halt.fault, halt.reached.result)
        | .ok x => (.ok x.report, x.finished) := by
  unfold determinizeInto
  rw [htarget]
  rfl

/-- An empty destination refuses nothing. It gets the result of the exploration, or what was laid
when this halted. -/
theorem determinizeInto_empty (a : Automaton) (limit : StateLimit) :
    a.determinizeInto ∅ limit =
      if a.isEmpty then (.ok ⟨0, 0, ∅⟩, ∅)
      else
        match Exploration.ofAutomaton a limit ∅ with
        | .error halt => (.error halt.fault, halt.reached.result)
        | .ok x => (.ok x.report, x.finished) := determinizeInto_of_isEmpty rfl

/-- An automaton with a state has an edge. -/
theorem isEmpty_of_hasState {s : StateId} (h : a.hasState s = true) : a.isEmpty = false := by
  obtain ⟨e, he, -⟩ := mem_states.1 (hasState_iff.1 h)
  rw [isEmpty, List.isEmpty_eq_false_iff]
  exact List.ne_nil_of_mem he

/-- For an automaton with a state the outcome is that of the exploration. -/
theorem determinize_of_hasState {s : StateId} (h : a.hasState s = true) :
    a.determinize limit =
      match Exploration.ofAutomaton a limit ∅ with
      | .error halt => .error halt.fault
      | .ok x => .ok (x.finished, x.report) := by
  rw [determinize, determinizeInto_empty, isEmpty_of_hasState h]
  cases Exploration.ofAutomaton a limit ∅ <;> rfl

/-- A determinization that succeeds comes from a finished exploration. -/
theorem determinize_finished (h : a.determinize limit = .ok (dfa, report)) :
    ∃ x, Exploration.Finished a limit ∅ x ∧ dfa = x.finished ∧ report = x.report := by
  by_cases hempty : a.edges = []
  · have hisEmpty : a.isEmpty = true := List.isEmpty_iff.2 hempty
    rw [determinize, determinizeInto_empty, if_pos hisEmpty] at h
    obtain ⟨rfl, rfl⟩ : ∅ = dfa ∧ ⟨0, 0, ∅⟩ = report := by simpa using h
    exact ⟨_, finished_of_no_edges hempty, rfl, rfl⟩
  · have hisEmpty : ¬ a.isEmpty = true := mt List.isEmpty_iff.1 hempty
    rw [determinize, determinizeInto_empty, if_neg hisEmpty] at h
    cases hx : Exploration.ofAutomaton a limit ∅ with
    | error halt => simp [hx] at h
    | ok x =>
      obtain ⟨rfl, rfl⟩ : x.finished = dfa ∧ x.report = report := by simpa [hx] using h
      exact ⟨x, (Exploration.ofAutomaton_finished hx).1, rfl, rfl⟩

/-- A determinization that succeeds under a limit shows that no more sets are attained than it
allows, the set of the start state apart. -/
theorem attainedCount_le_of_limit {c : Nat} (h : a.determinize (some c) = .ok (dfa, report)) :
    a.attainedCount ≤ max 1 c := by
  obtain ⟨x, hx, -, -⟩ := determinize_finished h
  rw [← hx.length_eq]
  exact hx.length_le

end Automaton

namespace Exploration

variable {a target : Automaton} {limit : StateLimit} {x : Exploration}
variable {S : StateSet} {d d' : StateId} {w : List String}

/-- An exploration into an automaton without edges has the first number as its start state. -/
theorem Finished.start_finished (h : Finished a limit ∅ x) :
    x.finished.start = Automaton.defaultStart := by
  obtain ⟨es, hresult, -⟩ := h.laid
  unfold finished
  split
  · rw [hresult, Automaton.start_addAll]
    rfl
  · rfl

/-- The report holds the sets found, as far as their numbers are states. -/
theorem Finished.get?_report (h : Finished a limit target x)
    (few : x.found.length < UInt32.size) :
    x.report.stateSets.get? d = some S ↔ (S, d) ∈ x.found ∧ x.finished.hasState d = true := by
  rw [report, OrderedMap.get?_filterKeys_eq_some, Stage.get?_stateSets h few]

/-- A set in the report was found. -/
theorem Finished.mem_of_get?_report (h : Finished a limit target x)
    (hS : x.report.stateSets.get? d = some S) : (S, d) ∈ x.found := by
  rw [report, OrderedMap.get?_filterKeys_eq_some] at hS
  exact Stage.mem_of_get?_stateSets h hS.1

/-- A state of the deterministic automaton is the number of a set. -/
theorem Finished.exists_set (h : Finished a limit target x)
    (no_edges : target.edges = []) (hd : x.finished.hasState d = true) :
    ∃ S, (S, d) ∈ x.found := by
  obtain ⟨e, he, rfl | rfl⟩ := Automaton.mem_states.1 (Automaton.hasState_iff.1 hd)
  · obtain ⟨S, g, hS, -⟩ := h.exists_task no_edges he
    exact ⟨S, hS⟩
  · obtain ⟨S, g, -, -, htarget, -⟩ := h.exists_task no_edges he
    exact ⟨g.targets, htarget⟩

/-- There are no more states than sets found. -/
theorem Finished.stateCount_le (h : Finished a limit target x) (no_edges : target.edges = []) :
    x.finished.stateCount ≤ x.found.length := by
  have hsub : x.finished.states.toList ⊆ x.found.map Prod.snd := by
    intro d hd
    obtain ⟨S, hS⟩ := h.exists_set no_edges (Automaton.hasState_iff.2 hd)
    exact List.mem_map.2 ⟨_, hS, rfl⟩
  have hlength := (x.finished.states.ascending.nodup.subperm hsub).length_le
  rw [List.length_map] at hlength
  exact hlength

/-- If the deterministic automaton has a state, the start state is a state of the automaton. -/
theorem Finished.hasState_start (h : Finished a limit ∅ x) (hd : x.finished.hasState d = true) :
    a.hasState a.start = true := by
  obtain ⟨e, he, -⟩ := Automaton.mem_states.1 (Automaton.hasState_iff.1 hd)
  obtain ⟨S, g, hS, hg, -⟩ := h.exists_task rfl he
  exact (Stage.attained h _ hS).hasState_start hg

/-- From the number of a set, a word leads to the number of the set it leads to. -/
theorem Finished.path_iff (h : Finished a limit target x) (no_edges : target.edges = [])
    (few : x.found.length < UInt32.size) (hS : (S, d) ∈ x.found) :
    x.finished.Path d w d' ↔ (a.after S w, d') ∈ x.found := by
  induction w generalizing S d with
  | nil =>
    rw [Automaton.path_nil, Automaton.after_nil]
    constructor
    · rintro rfl
      exact hS
    · exact (Stage.numbered h).number_unique hS
  | cons l w ih =>
    rw [Automaton.path_cons, Automaton.after_cons]
    constructor
    · rintro ⟨e, he, hsource, hlabel, hrest⟩
      have hnext := (h.edge_iff no_edges few hS).1 ⟨e, he, hsource, hlabel, rfl⟩
      exact (ih hnext).1 hrest
    · intro hd'
      -- some state is at the end of the word, so its first label leads to some state
      obtain ⟨t, ht⟩ := (Stage.attained h _ hd').1
      obtain ⟨s, hs, -⟩ := Automaton.mem_after.1 ht
      obtain ⟨m, hm⟩ := h.exists_number hS ⟨s, hs⟩
      obtain ⟨e, he, hsource, hlabel, rfl⟩ := (h.edge_iff no_edges few hS).2 hm
      exact ⟨e, he, hsource, hlabel, (ih hm).2 hd'⟩

/-- A word leads to the number of the set of all states that it leads to. -/
theorem Finished.reaches_iff (h : Finished a limit ∅ x) (few : x.found.length < UInt32.size) :
    x.finished.Reaches w d ↔ (a.reached w, d) ∈ x.found := by
  rw [Automaton.Reaches, h.start_finished]
  exact h.path_iff rfl few (Stage.mem_start h)

/-- A word that leads to some state has a number to lead to. -/
theorem Finished.exists_reaches_iff (h : Finished a limit ∅ x)
    (few : x.found.length < UInt32.size) :
    (∃ d, x.finished.Reaches w d) ↔ ∃ s, a.Reaches w s := by
  simp only [h.reaches_iff few, h.exists_mem_found_iff, Automaton.attains_iff,
    Automaton.mem_reached]
  constructor
  · exact fun hw => hw.1
  · exact fun hw => ⟨hw, w, rfl⟩

end Exploration

end TouchAutomata
