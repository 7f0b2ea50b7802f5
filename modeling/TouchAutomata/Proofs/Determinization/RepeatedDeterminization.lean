import TouchAutomata.Proofs.Determinization.RenumberedStates

/-!
# Determinization of what was determinized

The edges of a result are laid in the order of their sources and labels, so a result is known by
which edges it has (`Finished.finished_eq`). A result is deterministic, and its states are in the
order of their least words; to determinize it again gives each state its own number
(`determinize_again`).
-/

set_option autoImplicit false

namespace TouchAutomata

/-- Lists of the same edges are the same if both are in the order of sources and labels. -/
theorem Edge.eq_of_mem_iff_of_earlier {es es' : List Edge} (h : es.Pairwise Edge.Earlier)
    (h' : es'.Pairwise Edge.Earlier) (same : ∀ e, e ∈ es ↔ e ∈ es') : es = es' := by
  have hnodup : ∀ {l : List Edge}, l.Pairwise Edge.Earlier → l.Nodup := by
    intro l hl
    refine hl.imp fun {d e} hde => ?_
    rintro rfl
    exact hde.asymm hde
  have hperm : es.Perm es' := (List.perm_ext_iff_of_nodup (hnodup h) (hnodup h')).2 same
  exact hperm.eq_of_pairwise (fun d e _ _ hde hed => absurd hed hde.asymm) h h'

namespace Exploration

variable {a b target : Automaton} {limit limit' : StateLimit} {x y : Exploration}
variable {S : StateSet} {d : StateId}

/-! ## The order in which edges are laid -/

/-- The edges laid for the tasks are in the order of sources and labels. -/
theorem Finished.pairwise_earlier (h : Finished a limit target x)
    (few : x.found.length < UInt32.size) {es : List Edge}
    (hlays : List.Forall₂ x.Lays (tasksOf a x.found) es) : es.Pairwise Edge.Earlier := by
  have hsorted : (tasksOf a x.found).Pairwise Task.Before :=
    pairwise_tasksOf ((Stage.numbered h).pairwise_numbers few)
  rw [List.pairwise_iff_getElem] at hsorted ⊢
  intro i j hi hj hij
  have hlength := hlays.length_eq
  obtain ⟨hsource, htouch, -⟩ := hlays.get (hlength ▸ hi) hi
  obtain ⟨hsource', htouch', -⟩ := hlays.get (hlength ▸ hj) hj
  have hbefore := hsorted i j (hlength ▸ hi) (hlength ▸ hj) hij
  simp only [List.get_eq_getElem] at hsource htouch hsource' htouch'
  rw [Edge.Earlier, Edge.label, Edge.label, hsource, htouch, hsource', htouch']
  exact hbefore

/-- The edges were added in the order of their tasks, and each is an edge of the result. -/
theorem Finished.laid_in_order (h : Finished a limit ∅ x) (few : x.found.length < UInt32.size) :
    ∃ es : List Edge, x.result = (∅ : Automaton).addAll es ∧ es.Pairwise Edge.Earlier ∧
      ∀ e, e ∈ es ↔ e ∈ x.finished.edges := by
  obtain ⟨es, hresult, hlays⟩ := Stage.laid h
  exact ⟨es, hresult, h.pairwise_earlier few hlays,
    fun e => (h.mem_laid hlays).trans (h.mem_edges rfl few).symm⟩

/-- Explorations with the same edges have the same result. -/
theorem Finished.finished_eq (hx : Finished a limit ∅ x) (hy : Finished b limit' ∅ y)
    (fewx : x.found.length < UInt32.size) (fewy : y.found.length < UInt32.size)
    (same : ∀ e, e ∈ x.finished.edges ↔ e ∈ y.finished.edges) : x.finished = y.finished := by
  obtain ⟨es, hes, horder, hmem⟩ := hx.laid_in_order fewx
  obtain ⟨es', hes', horder', hmem'⟩ := hy.laid_in_order fewy
  have heq : es = es' := by
    refine Edge.eq_of_mem_iff_of_earlier horder horder' fun e => ?_
    rw [hmem, hmem', same]
  rw [finished, finished, hes, hes', heq]

/-! ## The result as an automaton of its own -/

/-- From no state of a result does a label lead to two states. -/
theorem Finished.deterministic (h : Finished a limit ∅ x) (few : x.found.length < UInt32.size) :
    x.finished.Deterministic := by
  intro d hd e he hsource hlabel
  rw [h.edge_unique rfl few hd he hsource hlabel]

/-- Words lead to the numbers of the sets found, and to no other states. -/
theorem Finished.exists_reaches_number_iff (h : Finished a limit ∅ x)
    (few : x.found.length < UInt32.size) :
    (∃ w, x.finished.Reaches w d) ↔ ∃ S, (S, d) ∈ x.found := by
  simp only [h.reaches_iff few]
  constructor
  · rintro ⟨w, hw⟩
    exact ⟨_, hw⟩
  · rintro ⟨S, hS⟩
    obtain ⟨-, w, rfl⟩ := Automaton.attains_iff.1 (Stage.attained h _ hS)
    exact ⟨w, hS⟩

/-- Words lead to as many states of a result as sets were found. -/
theorem Finished.reachableCount_eq (h : Finished a limit ∅ x)
    (few : x.found.length < UInt32.size) : x.finished.reachableCount = x.found.length := by
  have hset : {d | ∃ w, x.finished.Reaches w d} =
      ((x.found.map Prod.snd).toFinset : Set StateId) := by
    ext d
    simp [h.exists_reaches_number_iff few]
  have hnodup : (x.found.map Prod.snd).Nodup :=
    ((Stage.numbered h).pairwise_numbers few).imp fun hlt => UInt32.ne_of_lt hlt
  rw [Automaton.reachableCount, hset, Set.ncard_coe_finset, List.toFinset_card_of_nodup hnodup,
    List.length_map]

/-- The states of a result count from one. -/
theorem Finished.toNat_states (h : Finished a limit ∅ x) (few : x.found.length < UInt32.size) :
    x.finished.states.toList.map UInt32.toNat = List.range' 1 x.finished.stateCount := by
  rw [← h.keys_report few]
  exact h.toNat_keys_report few

/-- If an edge leaves the start state of the automaton, one leaves that of the result. -/
theorem Finished.exists_edge_start (h : Finished a limit ∅ x)
    (few : x.found.length < UInt32.size) (hstart : ∃ e ∈ a.edges, e.source = a.start) :
    ∃ e ∈ x.finished.edges, e.source = x.finished.start := by
  rw [h.start_finished, h.exists_edge_iff rfl few (Stage.mem_start h)]
  simpa using hstart

/-- All states of a result with edges are led to by words. -/
theorem Finished.mem_states_iff (h : Finished a limit ∅ x) (few : x.found.length < UInt32.size)
    (hstart : ∃ e ∈ a.edges, e.source = a.start) :
    d ∈ x.finished.states ↔ ∃ w, x.finished.Reaches w d := by
  rw [h.exists_reaches_number_iff few, ← Automaton.hasState_iff]
  constructor
  · exact h.exists_set rfl
  · rintro ⟨S, hS⟩
    exact h.hasState_of_mem_found few hstart hS

/-- If an edge leaves the start state of the automaton, the result has its start state. -/
theorem Finished.start_mem_states (h : Finished a limit ∅ x)
    (few : x.found.length < UInt32.size) (hstart : ∃ e ∈ a.edges, e.source = a.start) :
    x.finished.start ∈ x.finished.states := by
  rw [h.start_finished, ← Automaton.hasState_iff]
  exact h.hasState_of_mem_found few hstart (Stage.mem_start h)

/-- Exploring a result gives this result, each state standing for itself. -/
theorem Finished.again (hx : Finished a limit ∅ x) (few : x.found.length < UInt32.size)
    (hstart : ∃ e ∈ a.edges, e.source = a.start) (hy : Finished x.finished limit' ∅ y) :
    y.finished = x.finished ∧
      ∀ d S, y.report.stateSets.get? d = some S ↔ d ∈ x.finished.states ∧ S = {d} := by
  have det := hx.deterministic few
  have hstart' := hx.exists_edge_start few hstart
  -- the sets found again are as many as the states, so the numbers suffice again
  have fewy : y.found.length < UInt32.size := by
    rw [hy.length_eq, det.attainedCount_eq, hx.reachableCount_eq few]
    exact few
  obtain ⟨f, hf⟩ := hy.exists_members det
  have hnew : Renumbers f y.finished x.finished := hy.renumbers fewy det hstart' hf
  obtain ⟨hstates, hself⟩ :=
    hnew.eq_self (hy.sequential fewy) (hx.sequential few) (hy.start_mem_states fewy hstart')
      (fun _ => hx.mem_states_iff few hstart) (hy.toNat_states fewy) (hx.toNat_states few)
  have hsame : y.finished = x.finished :=
    hy.finished_eq hx fewy few fun e => hnew.mem_edges_iff hstates hself
  refine ⟨hsame, fun d S => ?_⟩
  rw [hy.get?_report_of_members fewy hf, hstates]
  refine and_congr_right fun hd => ?_
  rw [hself d (hstates ▸ hd)]

end Exploration

namespace Automaton

variable {a dfa : Automaton} {limit : StateLimit} {report : DeterminizationReport}

/-- An automaton without edges and with the default start state is its own result. -/
theorem determinize_empty : (∅ : Automaton).determinize limit = .ok (∅, ⟨0, 0, ∅⟩) := rfl

/-- A limit that allows an automaton to be made deterministic allows it for the result. -/
theorem exists_determinize_again (h : a.determinize limit = .ok (dfa, report))
    (few : a.attainedCount < UInt32.size - 1) (hstart : dfa.hasState dfa.start = true) :
    ∃ r, dfa.determinize limit = .ok r := by
  cases hlimit : limit with
  | none =>
    obtain ⟨dfa', report', h'⟩ := determinize_unlimited hstart
    exact ⟨_, h'⟩
  | some c =>
    rw [hlimit] at h
    have hle := attainedCount_le_of_limit h
    obtain ⟨x, hx, rfl, -⟩ := determinize_finished h
    have few := hx.length_lt few
    rw [exists_determinize_iff hstart, (hx.deterministic few).attainedCount_eq,
      hx.reachableCount_eq few, hx.length_eq]
    exact hle

/-- To make an automaton deterministic that is the result of this gives the same automaton, under
the same limit. Each state stands for itself, and the counts stay as they are. -/
theorem determinize_again (h : a.determinize limit = .ok (dfa, report))
    (few : a.attainedCount < UInt32.size - 1) :
    ∃ report', dfa.determinize limit = .ok (dfa, report') ∧
      (∀ d S, report'.stateSets.get? d = some S ↔ d ∈ dfa.states ∧ S = {d}) ∧
      report'.states = report.states ∧ report'.transitions = report.transitions := by
  obtain ⟨x, hx, hdfa, rfl⟩ := determinize_finished h
  have fewx := hx.length_lt few
  by_cases hstart : ∃ e ∈ a.edges, e.source = a.start
  · have hmem := hx.start_mem_states fewx hstart
    rw [← hasState_iff, ← hdfa] at hmem
    obtain ⟨⟨dfa', report'⟩, h'⟩ := exists_determinize_again h few hmem
    obtain ⟨y, hy, rfl, rfl⟩ := determinize_finished h'
    subst hdfa
    obtain ⟨hsame, hsets⟩ := hx.again fewx hstart hy
    refine ⟨y.report, ?_, hsets, ?_, ?_⟩
    · rw [h', hsame]
    · exact congrArg stateCount hsame
    · exact congrArg transitionCount hsame
  · have hnil : x.finished.edges = [] :=
      hx.edges_eq_nil fewx fun e he hsource => hstart ⟨e, he, hsource⟩
    have hempty : x.finished = ∅ := ext_edges hx.start_finished hnil
    subst hdfa
    rw [hempty]
    refine ⟨_, determinize_empty, ?_, ?_, ?_⟩
    · intro d S
      constructor
      · intro hS
        cases hS
      · rintro ⟨hd, -⟩
        cases hd
    · exact (congrArg stateCount hempty).symm
    · exact (congrArg transitionCount hempty).symm

/-- The five states and six edges of `forkedMerged` stay as they are. -/
theorem determinize_again_forked :
    forked.determinize (some defaultStateLimit) = .ok (forkedMerged, forkedReport) ∧
    forked.attainedCount < UInt32.size - 1 ∧
    ∃ report, forkedMerged.determinize (some defaultStateLimit) = .ok (forkedMerged, report) ∧
      (∀ d S, report.stateSets.get? d = some S ↔ d ∈ forkedMerged.states ∧ S = {d}) ∧
      report.states = 5 ∧ report.transitions = 6 :=
  ⟨determinize_forked, few_forked, determinize_again determinize_forked few_forked⟩

end Automaton

end TouchAutomata
