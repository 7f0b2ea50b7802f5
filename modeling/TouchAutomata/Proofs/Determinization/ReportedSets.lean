import TouchAutomata.Proofs.Determinization.NumberingOrder
import TouchAutomata.Proofs.Ordered.Entries

/-!
# What the report says

The sets found stand in the report under their numbers, in the order in which they were found
(`Stage.toList_stateSets`). If an edge leaves the start state, all numbers are states
(`Finished.toList_report`); else there are no states at all. The deterministic automaton has one
edge for each label that leaves one of the sets (`Finished.length_edges`).
-/

set_option autoImplicit false

namespace TouchAutomata

namespace Exploration

variable {a target : Automaton} {limit : StateLimit} {x : Exploration}
variable {taken : List (StateSet × StateId)} {done todo : List Task}
variable {S : StateSet} {d n : StateId} {w : List String}

/-! ## Entries -/

/-- The sets stand under their numbers in the order in which they were found. -/
theorem Stage.toList_stateSets (h : Stage a limit target taken done todo x)
    (few : x.found.length < UInt32.size) : x.stateSets.toList = x.found.map Prod.swap := by
  induction h with
  | begun => rfl
  | take stage next ih => exact ih few
  | @follow taken done todo x y k g stage step ih =>
    rcases follow_eq_ok.1 step with ⟨m, -, rfl⟩ | ⟨-, -, rfl⟩
    · exact ih few
    · simp only [found_lay, found_discover, List.length_append, List.length_singleton] at few
      have hentries := ih (by omega)
      have hlast : ∀ c ∈ x.stateSets.toList.map Prod.fst, compare c x.fresh = .lt := by
        intro c hc
        rw [hentries, List.map_map] at hc
        obtain ⟨p, hp, rfl⟩ := List.mem_map.1 hc
        exact Std.compare_eq_lt.2 (stage.numbered.lt_fresh few hp)
      have hinsert : (x.stateSets.insert x.fresh g.targets).toList =
          x.stateSets.toList ++ [(x.fresh, g.targets)] := updateAscending_eq_append hlast
      rw [stateSets_lay, stateSets_discover, hinsert, hentries, found_lay, found_discover,
        List.map_append]
      rfl

/-! ## Numbers that are states -/

/-- Each set that was found stands under a number that is a state, if an edge leaves the start
state. -/
theorem Finished.hasState_of_mem_found (h : Finished a limit ∅ x)
    (few : x.found.length < UInt32.size) (hstart : ∃ e ∈ a.edges, e.source = a.start)
    (hS : (S, d) ∈ x.found) : x.finished.hasState d = true := by
  obtain ⟨-, w, rfl⟩ := Automaton.attains_iff.1 (Stage.attained h _ hS)
  exact h.hasState_of_reaches few hstart ((h.reaches_iff few).2 hS)

/-- If no edge leaves the start state, none is laid. -/
theorem Finished.edges_eq_nil (h : Finished a limit ∅ x) (few : x.found.length < UInt32.size)
    (hstart : ∀ e ∈ a.edges, e.source ≠ a.start) : x.finished.edges = [] := by
  rw [List.eq_nil_iff_forall_not_mem]
  intro e he
  obtain ⟨S, g, hS, -⟩ := (h.mem_edges rfl few).1 he
  obtain ⟨f, hf, hs⟩ := (h.exists_edge_iff rfl few hS).1 ⟨e, he, rfl⟩
  obtain ⟨-, w, rfl⟩ := Automaton.attains_iff.1 (Stage.attained h _ hS)
  have hpath := Automaton.mem_reached.1 hs
  cases w with
  | nil => exact hstart f hf (Automaton.path_nil.1 hpath).symm
  | cons l w =>
    obtain ⟨c, hc, hsource, -⟩ := Automaton.path_cons.1 hpath
    exact hstart c hc hsource

/-- No edge is laid exactly when none leaves the start state. -/
theorem Finished.edges_eq_nil_iff (h : Finished a limit ∅ x)
    (few : x.found.length < UInt32.size) :
    x.finished.edges = [] ↔ ∀ e ∈ a.edges, e.source ≠ a.start := by
  constructor
  · intro hnil e he hsource
    have hmem : e.source ∈ ({a.start} : StateSet) := by simp [hsource]
    obtain ⟨f, hf, -⟩ := (h.exists_edge_iff rfl few (Stage.mem_start h)).2 ⟨e, he, hmem⟩
    rw [hnil] at hf
    exact List.not_mem_nil hf
  · exact h.edges_eq_nil few

/-- The report lists the sets found, in their order, if there are edges. -/
theorem Finished.toList_report (h : Finished a limit ∅ x) (few : x.found.length < UInt32.size) :
    x.report.stateSets.toList =
      if x.finished.edges = [] then [] else x.found.map Prod.swap := by
  have hentries := Stage.toList_stateSets h few
  show x.stateSets.toList.filter (fun e => x.finished.hasState e.1) = _
  split
  · rename_i hnil
    rw [List.filter_eq_nil_iff]
    intro e _
    rw [Automaton.hasState, hnil]
    exact Bool.false_ne_true
  · rename_i hsome
    have hstart : ∃ e ∈ a.edges, e.source = a.start := by
      by_contra hnone
      exact hsome ((h.edges_eq_nil_iff few).2 fun e he hsource => hnone ⟨e, he, hsource⟩)
    rw [hentries, List.filter_eq_self]
    intro e he
    obtain ⟨p, hp, rfl⟩ := List.mem_map.1 he
    exact h.hasState_of_mem_found few hstart hp

/-- The sets of the report are those found, if there are edges. -/
theorem Finished.values_report (h : Finished a limit ∅ x) (few : x.found.length < UInt32.size) :
    x.report.stateSets.values =
      if x.finished.edges = [] then [] else x.found.map Prod.fst := by
  rw [OrderedMap.values, h.toList_report few]
  split
  · rfl
  · rw [List.map_map]
    rfl

/-- The report has no sets exactly when the result has no edges. -/
theorem Finished.isEmpty_report (h : Finished a limit ∅ x) (few : x.found.length < UInt32.size) :
    x.report.stateSets.isEmpty = true ↔ x.finished.edges = [] := by
  have hfound : x.found ≠ [] := List.ne_nil_of_mem (Stage.mem_start h)
  rw [OrderedMap.isEmpty, List.isEmpty_iff, h.toList_report few]
  split <;> simp_all

/-- The report has a set for every state of the result, and for no other. -/
theorem Finished.keys_report (h : Finished a limit ∅ x) (few : x.found.length < UInt32.size) :
    x.report.stateSets.keys = x.finished.states.toList := by
  refine x.report.stateSets.ascending.eq_of_mem_iff x.finished.states.ascending fun d => ?_
  rw [← OrderedSet.mem_def, ← Automaton.hasState_iff]
  constructor
  · intro hd
    obtain ⟨⟨_, S⟩, hS, rfl⟩ := List.mem_map.1 hd
    exact ((h.get?_report few).1 (OrderedMap.get?_eq_some_iff.2 hS)).2
  · intro hd
    obtain ⟨S, hS⟩ := h.exists_set rfl hd
    have hget := OrderedMap.get?_eq_some_iff.1 ((h.get?_report few).2 ⟨hS, hd⟩)
    exact List.mem_map_of_mem hget

/-! ## Edges -/

/-- From a state of the result there is one edge for a label. -/
theorem Finished.edge_unique {e f : Edge} (h : Finished a limit target x)
    (no_edges : target.edges = []) (few : x.found.length < UInt32.size)
    (he : e ∈ x.finished.edges) (hf : f ∈ x.finished.edges) (hsource : e.source = f.source)
    (hlabel : e.label = f.label) : e = f := by
  obtain ⟨S, g, hS, hg, htarget, htouch⟩ := (h.mem_edges no_edges few).1 he
  obtain ⟨S', g', hS', hg', htarget', htouch'⟩ := (h.mem_edges no_edges few).1 hf
  rw [hsource] at hS
  obtain rfl := (Stage.numbered h).set_unique few.le hS hS'
  rw [Edge.label, Edge.label, htouch, htouch'] at hlabel
  obtain rfl := Automaton.eq_of_mem_labelGroups hg hg' hlabel
  have htargets := (Stage.numbered h).number_unique htarget htarget'
  cases e
  cases f
  simp_all

/-- The edges of the result are, up to their order, one for each task. -/
theorem Finished.perm_edges (h : Finished a limit target x) (no_edges : target.edges = [])
    (few : x.found.length < UInt32.size) :
    (x.finished.edges.map fun e => (e.source, e.label)).Perm
      ((tasksOf a x.found).map fun t => (t.1, t.2.touch.label)) := by
  have hedges : (x.finished.edges.map fun e => (e.source, e.label)).Nodup := by
    refine List.Nodup.map_on ?_ ?_
    · intro e he f hf heq
      obtain ⟨hsource, hlabel⟩ := Prod.mk.inj heq
      exact h.edge_unique no_edges few he hf hsource hlabel
    · refine x.finished.orderly.imp ?_
      rintro d e ⟨-, htwin⟩ rfl
      exact htwin ⟨rfl, rfl, rfl⟩
  have htasks : ((tasksOf a x.found).map fun t => (t.1, t.2.touch.label)).Nodup := by
    refine List.pairwise_map.2 ((pairwise_tasksOf ((Stage.numbered h).pairwise_numbers few)).imp ?_)
    rintro t u (hlt | ⟨-, hlt⟩) heq
    · rw [(Prod.mk.inj heq).1] at hlt
      exact UInt32.lt_irrefl _ hlt
    · rw [(Prod.mk.inj heq).2] at hlt
      exact String.lt_irrefl _ hlt
  -- both lists are free of doubles, so it is enough to compare their members
  rw [List.perm_ext_iff_of_nodup hedges htasks]
  rintro ⟨s, l⟩
  simp only [List.mem_map]
  constructor
  · rintro ⟨e, he, heq⟩
    obtain ⟨S, g, hS, hg, -, htouch⟩ := (h.mem_edges no_edges few).1 he
    obtain ⟨rfl, rfl⟩ := Prod.mk.inj heq
    exact ⟨(e.source, g), mem_tasksOf.2 ⟨S, hS, hg⟩, by rw [Edge.label, htouch]⟩
  · rintro ⟨⟨s', g⟩, ht, heq⟩
    obtain ⟨S, hS, hg⟩ := mem_tasksOf.1 ht
    obtain ⟨m, hm⟩ := h.exists_number_targets hS hg
    refine ⟨⟨s', m, g.touch⟩, ?_, heq⟩
    exact (h.mem_edges no_edges few).2 ⟨S, g, hS, hg, hm, rfl⟩

/-- There is one edge for each label that leaves one of the sets found. -/
theorem Finished.length_edges (h : Finished a limit target x) (no_edges : target.edges = [])
    (few : x.found.length < UInt32.size) :
    x.finished.edges.length = (x.found.map fun p => (a.labelsLeaving p.1).size).sum := by
  have hlength := (h.perm_edges no_edges few).length_eq
  rw [List.length_map, List.length_map] at hlength
  rw [hlength, tasksOf, List.length_flatMap]
  simp only [List.length_map, Automaton.length_labelGroups]

/-- The edges are as many as the labels that leave the sets of the report. -/
theorem Finished.length_edges_report (h : Finished a limit ∅ x)
    (few : x.found.length < UInt32.size) :
    x.finished.edges.length =
      (x.report.stateSets.values.map fun S => (a.labelsLeaving S).size).sum := by
  rw [h.values_report few]
  split
  · rename_i hnil
    rw [hnil]
    rfl
  · rw [h.length_edges rfl few, List.map_map]
    rfl

/-! ## Sets and numbers -/

/-- The numbers in the report count from one up to the number of states. -/
theorem Finished.toNat_keys_report (h : Finished a limit ∅ x)
    (few : x.found.length < UInt32.size) :
    x.report.stateSets.keys.map UInt32.toNat = List.range' 1 x.report.states := by
  have hcount : x.report.states = x.report.stateSets.keys.length := by
    rw [h.keys_report few]
    rfl
  have hnumbers : (x.found.map Prod.snd).map UInt32.toNat = List.range' 1 x.found.length := by
    rw [(Stage.numbered h).numbers, List.map_map, List.range'_eq_map_range]
    refine List.map_congr_left fun i hi => ?_
    rw [List.mem_range] at hi
    rw [Function.comp_apply, toNat_nth (by omega), Nat.add_comm]
  rw [hcount, OrderedMap.keys, h.toList_report few]
  split
  · rfl
  · rw [List.map_map, List.length_map, List.length_map, ← hnumbers, List.map_map, List.map_map]
    rfl

/-- No set stands under two numbers of the report. -/
theorem Finished.nodup_values_report (h : Finished a limit ∅ x)
    (few : x.found.length < UInt32.size) : x.report.stateSets.values.Nodup := by
  rw [h.values_report few]
  split
  · exact List.nodup_nil
  · exact (Stage.numbered h).distinct

/-- If there are edges, the report has the attained sets and no others. -/
theorem Finished.mem_values_report (h : Finished a limit ∅ x)
    (few : x.found.length < UInt32.size) :
    S ∈ x.report.stateSets.values ↔ x.finished.edges ≠ [] ∧ a.Attains S := by
  rw [h.values_report few, ← h.exists_mem_found_iff]
  split <;> simp_all

/-- If there are edges, the first state stands for the start state alone. -/
theorem Finished.get?_report_start (h : Finished a limit ∅ x)
    (few : x.found.length < UInt32.size) (hsome : x.finished.edges ≠ []) :
    x.report.stateSets.get? Automaton.defaultStart = some {a.start} := by
  rw [OrderedMap.get?_eq_some_iff, h.toList_report few, if_neg hsome]
  exact List.mem_map.2 ⟨_, Stage.mem_start h, rfl⟩

end Exploration

namespace Automaton

variable {a dfa : Automaton} {limit : StateLimit} {report : DeterminizationReport}

/-- The report lists the states, which count from one, with different sets of states. If there are
states at all, the first stands for the start state alone, and the sets are the attained ones.
There are none exactly when no edge leaves the start state. The edges are as many as the labels
that leave the sets. -/
theorem determinize_report (h : a.determinize limit = .ok (dfa, report))
    (few : a.attainedCount < UInt32.size - 1) :
    report.stateSets.keys = dfa.states.toList ∧
    report.stateSets.keys.map UInt32.toNat = List.range' 1 report.states ∧
    (∀ S ∈ report.stateSets.values, ∃ s, s ∈ S) ∧ report.stateSets.values.Nodup ∧
    (dfa.isEmpty = false →
      report.stateSets.get? 1 = some {a.start} ∧
      ∀ S, S ∈ report.stateSets.values ↔ a.Attains S) ∧
    (dfa.isEmpty = true ↔ a.isEmpty = true ∨ ∀ e ∈ a.edges, e.source ≠ a.start) ∧
    (report.stateSets.isEmpty = true ↔ dfa.isEmpty = true) ∧
    report.transitions =
      (report.stateSets.values.map fun S => (a.labelsLeaving S).size).sum := by
  obtain ⟨x, hx, rfl, rfl⟩ := determinize_finished h
  have few := hx.length_lt few
  have hempty : x.finished.isEmpty = true ↔ x.finished.edges = [] := List.isEmpty_iff
  refine ⟨hx.keys_report few, hx.toNat_keys_report few, ?_, hx.nodup_values_report few, ?_, ?_,
    ?_, hx.length_edges_report few⟩
  · intro S hS
    exact ((hx.mem_values_report few).1 hS).2.1
  · intro hsome
    have hedges : x.finished.edges ≠ [] := fun hnil => by simp [hempty.2 hnil] at hsome
    refine ⟨hx.get?_report_start few hedges, fun S => ?_⟩
    rw [hx.mem_values_report few, and_iff_right hedges]
  · rw [hempty, hx.edges_eq_nil_iff few]
    constructor
    · exact .inr
    · rintro (hnone | hstart) e he
      · rw [isEmpty, List.isEmpty_iff] at hnone
        rw [hnone] at he
        exact absurd he List.not_mem_nil
      · exact hstart e he
  · rw [hempty, hx.isEmpty_report few]

/-- The five sets of `forked`, and the six labels that leave them. -/
theorem determinize_report_forked :
    forked.determinize (some defaultStateLimit) = .ok (forkedMerged, forkedReport) ∧
    forked.attainedCount < UInt32.size - 1 ∧
    forkedReport.stateSets.keys = forkedMerged.states.toList ∧
    forkedReport.stateSets.keys.map UInt32.toNat = List.range' 1 5 ∧
    (∀ S ∈ forkedReport.stateSets.values, ∃ s, s ∈ S) ∧ forkedReport.stateSets.values.Nodup ∧
    forkedMerged.isEmpty = false ∧ forkedReport.stateSets.get? 1 = some {forked.start} ∧
    (∀ S, S ∈ forkedReport.stateSets.values ↔ forked.Attains S) ∧
    6 = (forkedReport.stateSets.values.map fun S => (forked.labelsLeaving S).size).sum := by
  obtain ⟨hkeys, hnumbers, hsome, hdistinct, hsets, -, -, hcount⟩ :=
    determinize_report determinize_forked few_forked
  have hedges : forkedMerged.isEmpty = false := by decide +kernel
  obtain ⟨hstart, hattained⟩ := hsets hedges
  exact ⟨determinize_forked, few_forked, hkeys, hnumbers, hsome, hdistinct, hedges, hstart,
    hattained, hcount⟩

end Automaton

end TouchAutomata
