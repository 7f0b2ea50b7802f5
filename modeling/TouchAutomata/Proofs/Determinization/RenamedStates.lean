import TouchAutomata.Determinization.Basic
import TouchAutomata.Proofs.Automaton.Renaming
import TouchAutomata.Proofs.Determinization.LeavingLabels
import TouchAutomata.Proofs.Determinization.WordSimulation
import TouchAutomata.Proofs.Ordered.Entries

/-!
# Determinization under other names

The explorations of two automata that are the same up to the names of their states go side by
side: at each step they have found the same numbers, for sets of which one is the image of the
other, and have laid edges with the same outlines (`Exploration.Renamed`). They take the groups of
a set in the order of the labels, so neither the names nor the order of the edges can be seen in
the result (`determinize_renamed`).
-/

set_option autoImplicit false

namespace TouchAutomata

variable {f : StateId → StateId} {a b : Automaton} {S : StateSet} {limit : StateLimit}

/-! ## Groups -/

/-- Two groups have the same label and the same triggers, and the targets of the second are the
images of those of the first. -/
structure LabelGroup.Renamed (f : StateId → StateId) (g h : LabelGroup) : Prop where
  label_eq : h.touch.label = g.touch.label
  triggers_eq : h.touch.triggers = g.touch.triggers
  targets_eq : h.targets = g.targets.image f

/-- A set and its image have the same labels leaving them, group by group. -/
theorem Renames.renamed_labelGroups (hf : Renames f a b) (hS : ∀ s ∈ S, a.hasState s = true) :
    List.Forall₂ (LabelGroup.Renamed f) (a.labelGroups S).values
      (b.labelGroups (S.image f)).values := by
  apply forall₂_values
  · show (a.labelGroups S).keys = (b.labelGroups (S.image f)).keys
    rw [Automaton.keys_labelGroups, Automaton.keys_labelGroups, hf.labelsLeaving_image hS]
  · intro l g h hg hh
    have hgl := Automaton.label_of_mem_labelGroups hg
    have hhl := Automaton.label_of_mem_labelGroups hh
    have hgv := List.mem_map_of_mem (f := Prod.snd) hg
    have hhv := List.mem_map_of_mem (f := Prod.snd) hh
    refine ⟨hhl.trans hgl.symm, OrderedSet.ext_mem fun i => ?_, ?_⟩
    · rw [Automaton.triggers_of_mem_labelGroups hgv, Automaton.triggers_of_mem_labelGroups hhv,
        hgl, hhl]
      exact hf.exists_leaving_iff hS fun _ k j => k = l ∧ i ∈ j
    · rw [Automaton.targets_of_mem_labelGroups hgv, Automaton.targets_of_mem_labelGroups hhv,
        hgl, hhl, hf.afterLabel_image hS]

/-- A group leads to states of the automaton. -/
theorem Automaton.hasState_of_mem_targets {g : LabelGroup} (hg : g ∈ (a.labelGroups S).values)
    {t : StateId} (ht : t ∈ g.targets) : a.hasState t = true := by
  rw [targets_of_mem_labelGroups hg] at ht
  obtain ⟨e, he, -, -, rfl⟩ := mem_afterLabel.1 ht
  exact hasState_target he

namespace Exploration

variable {x y : Exploration} {g h : LabelGroup} {n : StateId}

/-! ## Explorations side by side -/

/-- An entry with the image of its set. -/
def rename (f : StateId → StateId) : StateSet × StateId → StateSet × StateId :=
  Prod.map (OrderedSet.image f) id

/-- Two explorations have given the same numbers to sets of states of `a` and to their images, and
have laid edges with the same outlines. -/
structure Renamed (a : Automaton) (f : StateId → StateId) (x y : Exploration) : Prop where
  found_eq : y.found = x.found.map (rename f)
  pending_eq : y.pending = x.pending.map (rename f)
  stateSets_eq : y.stateSets = x.stateSets.mapValues (OrderedSet.image f)
  fresh_eq : y.fresh = x.fresh
  start_eq : x.result.start = y.result.start
  outlines_eq : x.result.outlines = y.result.outlines
  found_states : ∀ p ∈ x.found, ∀ s ∈ p.1, a.hasState s = true
  pending_states : ∀ p ∈ x.pending, ∀ s ∈ p.1, a.hasState s = true

/-- Two explorations agree as they begin. -/
theorem Renamed.begin (hf : Renames f a b) (hstart : a.hasState a.start = true) :
    Renamed a f (begin a.start ∅) (begin b.start ∅) := by
  have himage : ({b.start} : StateSet) = ({a.start} : StateSet).image f := by
    refine OrderedSet.ext_mem fun t => ?_
    rw [Automaton.mem_singleton_state, OrderedSet.mem_image, ← hf.start_eq]
    simp [eq_comm]
  have hmembers : ∀ s ∈ ({a.start} : StateSet), a.hasState s = true := by
    intro s hs
    rw [Automaton.mem_singleton_state.1 hs]
    exact hstart
  refine ⟨?_, ?_, ?_, rfl, rfl, rfl, ?_, ?_⟩
  · simp [Exploration.begin, rename, himage]
  · simp [Exploration.begin, rename, himage]
  · rw [Exploration.begin, Exploration.begin, stateSets_discover, stateSets_discover,
      OrderedMap.mapValues_insert, himage]
    rfl
  · simpa [Exploration.begin] using hmembers
  · simpa [Exploration.begin] using hmembers

/-- Two explorations agree after each has laid an edge for its group. -/
theorem Renamed.lay (hxy : Renamed a f x y) (hg : LabelGroup.Renamed f g h) {m : StateId} :
    Renamed a f (x.lay n m g.touch) (y.lay n m h.touch) where
  found_eq := hxy.found_eq
  pending_eq := hxy.pending_eq
  stateSets_eq := hxy.stateSets_eq
  fresh_eq := hxy.fresh_eq
  start_eq := by
    rw [result_lay, result_lay, Automaton.start_add, Automaton.start_add, hxy.start_eq]
  outlines_eq := by
    rw [result_lay, result_lay]
    apply Automaton.outlines_add hxy.outlines_eq
    rw [Edge.outline, Edge.outline, Edge.label, Edge.label, hg.label_eq, hg.triggers_eq]
  found_states := hxy.found_states
  pending_states := hxy.pending_states

/-- Two explorations agree after one has discovered a set and the other its image. -/
theorem Renamed.discover (hxy : Renamed a f x y) (hS : ∀ s ∈ S, a.hasState s = true) :
    Renamed a f (x.discover S) (y.discover (S.image f)) where
  found_eq := by
    rw [found_discover, found_discover, List.map_append, hxy.found_eq, hxy.fresh_eq]
    rfl
  pending_eq := by
    rw [pending_discover, pending_discover, List.map_append, hxy.pending_eq, hxy.fresh_eq]
    rfl
  stateSets_eq := by
    rw [stateSets_discover, stateSets_discover, OrderedMap.mapValues_insert, hxy.stateSets_eq,
      hxy.fresh_eq]
  fresh_eq := by
    rw [fresh_discover, fresh_discover, hxy.fresh_eq]
  start_eq := hxy.start_eq
  outlines_eq := hxy.outlines_eq
  found_states p hp := by
    rw [found_discover, List.mem_append, List.mem_singleton] at hp
    rcases hp with hp | rfl
    · exact hxy.found_states p hp
    · exact hS
  pending_states p hp := by
    rw [pending_discover, List.mem_append, List.mem_singleton] at hp
    rcases hp with hp | rfl
    · exact hxy.pending_states p hp
    · exact hS

/-- A set and its image have the same number, or none. -/
theorem Renamed.number?_eq (hxy : Renamed a f x y) (hf : Renames f a b)
    (hS : ∀ s ∈ S, a.hasState s = true) : y.number? (S.image f) = x.number? S := by
  rw [number?, number?, hxy.found_eq]
  refine lookup_map_keys fun p hp himage => ?_
  refine OrderedSet.eq_of_image_eq (fun s hs t ht => ?_) himage
  exact hf.apart s t (hS s hs) (hxy.found_states p hp t ht)

/-! ## Outcomes side by side -/

/-- Both explorations end well, side by side, or both halt at the limit. -/
inductive Agree (a : Automaton) (f : StateId → StateId) (limit : StateLimit) :
    Except Halt Exploration → Except Halt Exploration → Prop where
  | ok {x y : Exploration} (renamed : Renamed a f x y) : Agree a f limit (.ok x) (.ok y)
  | halt {c : Nat} {x y : Exploration} (bounded : limit = some c) :
    Agree a f limit (.error ⟨.stateLimitExceeded c, x⟩) (.error ⟨.stateLimitExceeded c, y⟩)

/-- Steps that agree, one after the other, agree. -/
theorem Agree.bind {r r' : Except Halt Exploration} {k k' : Exploration → Except Halt Exploration}
    (h : Agree a f limit r r')
    (hk : ∀ x y, Renamed a f x y → Agree a f limit (k x) (k' y)) :
    Agree a f limit (r >>= k) (r' >>= k') := by
  cases h with
  | ok renamed => exact hk _ _ renamed
  | halt bounded => exact .halt bounded

/-- To follow a group and the renamed one ends alike. -/
theorem Renamed.follow (hxy : Renamed a f x y) (hf : Renames f a b)
    (hg : LabelGroup.Renamed f g h) (htargets : ∀ t ∈ g.targets, a.hasState t = true) :
    Agree a f limit (follow limit n x g) (follow limit n y h) := by
  have hnumber := hxy.number?_eq hf htargets
  have hlength : y.found.length = x.found.length := by rw [hxy.found_eq, List.length_map]
  have hfull : y.isFull = x.isFull := by
    funext c
    rw [isFull, isFull, hlength]
  rw [Exploration.follow, Exploration.follow, hg.targets_eq, hnumber]
  cases x.number? g.targets with
  | some m => exact .ok (hxy.lay hg)
  | none =>
    simp only [hfull]
    cases hlimit : limit.filter x.isFull with
    | some c => exact .halt (Option.filter_eq_some_iff.1 hlimit).1
    | none =>
      rw [hxy.fresh_eq]
      exact .ok ((hxy.discover htargets).lay hg)

/-- To follow groups and the renamed ones ends alike, one after the other. -/
theorem Renamed.foldlM_follow {gs hs : List LabelGroup}
    (hgroups : List.Forall₂ (LabelGroup.Renamed f) gs hs) (hf : Renames f a b)
    (htargets : ∀ g ∈ gs, ∀ t ∈ g.targets, a.hasState t = true) (hxy : Renamed a f x y) :
    Agree a f limit (gs.foldlM (Exploration.follow limit n) x)
      (hs.foldlM (Exploration.follow limit n) y) := by
  induction hgroups generalizing x y with
  | nil => exact .ok hxy
  | @cons g h gs hs hg _ ih =>
    rw [List.foldlM_cons, List.foldlM_cons]
    refine (hxy.follow hf hg (htargets g (by simp))).bind fun x' y' hxy' => ?_
    exact ih (fun g' hg' => htargets g' (by simp [hg'])) hxy'

/-- To expand a set and its image ends alike. -/
theorem Renamed.expand (hxy : Renamed a f x y) (hf : Renames f a b)
    (hS : ∀ s ∈ S, a.hasState s = true) :
    Agree a f limit (expand a limit x S n) (expand b limit y (S.image f) n) := by
  have himage : ∀ t ∈ S.image f, b.hasState t = true := by
    intro t ht
    obtain ⟨s, hs, rfl⟩ := OrderedSet.mem_image.1 ht
    exact hf.hasState_image (hS s hs)
  rw [expand_of_hasState hS, expand_of_hasState himage]
  refine foldlM_follow (hf.renamed_labelGroups hS) hf (fun g hg t ht => ?_) hxy
  exact Automaton.hasState_of_mem_targets hg ht

/-- Two explorations that agree go on alike, whatever rounds are left. -/
theorem Renamed.explore {rounds : Nat} (hxy : Renamed a f x y) (hf : Renames f a b) :
    Agree a f limit (explore a limit rounds x) (explore b limit rounds y) := by
  induction rounds generalizing x y with
  | zero => exact .ok hxy
  | succ rounds ih =>
    have hpending := hxy.pending_eq
    cases hp : x.pending with
    | nil =>
      rw [hp, List.map_nil] at hpending
      rw [Exploration.explore, Exploration.explore, hp, hpending]
      exact .ok hxy
    | cons p rest =>
      rw [hp, List.map_cons] at hpending
      rw [Exploration.explore, Exploration.explore, hp, hpending]
      have htaken : Renamed a f { x with pending := rest }
          { y with pending := rest.map (rename f) } :=
        ⟨hxy.found_eq, rfl, hxy.stateSets_eq, hxy.fresh_eq, hxy.start_eq, hxy.outlines_eq,
          hxy.found_states, fun q hq => hxy.pending_states q (by simp [hp, hq])⟩
      have hset := hxy.pending_states p (by simp [hp])
      exact (htaken.expand hf hset).bind fun x' y' hxy' => ih hxy'

/-- Explorations of automata that are the same up to names end alike. -/
theorem agree_ofAutomaton (hf : Renames f a b) (hstart : a.hasState a.start = true) :
    Agree a f limit (ofAutomaton a limit ∅) (ofAutomaton b limit ∅) := by
  rw [ofAutomaton, ofAutomaton, hf.stateCount_eq]
  exact (Renamed.begin hf hstart).explore hf

/-! ## Results side by side -/

/-- Explorations that agree have results with the same outlines. -/
theorem Renamed.outlines_finished (hxy : Renamed a f x y) :
    x.finished.outlines = y.finished.outlines := by
  rw [Automaton.outlines, Automaton.outlines, edges_finished, edges_finished]
  exact hxy.outlines_eq

/-- Explorations that agree have results with the same start state. -/
theorem Renamed.start_finished (hxy : Renamed a f x y) :
    y.finished.start = x.finished.start := by
  rw [finished, finished, Automaton.isEmpty_eq_of_outlines hxy.outlines_eq]
  split
  · exact hxy.start_eq.symm
  · rfl

/-- The sets of the second report are the images of those of the first. -/
theorem Renamed.stateSets_report (hxy : Renamed a f x y) :
    y.report.stateSets = x.report.stateSets.mapValues (OrderedSet.image f) := by
  rw [report, report, OrderedMap.mapValues_filterKeys, hxy.stateSets_eq,
    Automaton.hasState_eq_of_outlines hxy.outlines_finished]

end Exploration

namespace Automaton

/-- Automata that are the same up to the names of their states either both exceed the limit, or
have the same deterministic automaton up to the texts of its touches, and the sets of the second
report are the images of those of the first. -/
theorem determinize_renamed (hf : Renames f a b) (hstart : a.hasState a.start = true) :
    (∃ c, limit = some c ∧ a.determinize limit = .error (.stateLimitExceeded c) ∧
      b.determinize limit = .error (.stateLimitExceeded c)) ∨
    ∃ dfa report dfa' report', a.determinize limit = .ok (dfa, report) ∧
      b.determinize limit = .ok (dfa', report') ∧
      dfa'.start = dfa.start ∧ dfa'.states = dfa.states ∧ dfa'.outlines = dfa.outlines ∧
      report'.states = report.states ∧ report'.transitions = report.transitions ∧
      report'.stateSets = report.stateSets.mapValues (OrderedSet.image f) := by
  have hagree : Exploration.Agree a f limit _ _ := Exploration.agree_ofAutomaton hf hstart
  rw [determinize_of_hasState hstart, determinize_of_hasState (hf.hasState_image hstart)]
  generalize Exploration.ofAutomaton a limit ∅ = r at hagree ⊢
  generalize Exploration.ofAutomaton b limit ∅ = r' at hagree ⊢
  cases hagree with
  | halt bounded => exact .inl ⟨_, bounded, rfl, rfl⟩
  | @ok x y renamed =>
    have houtlines := renamed.outlines_finished
    have hstates := states_eq_of_outlines houtlines
    refine .inr ⟨x.finished, x.report, y.finished, y.report, rfl, rfl, renamed.start_finished,
      hstates.symm, houtlines.symm, ?_, (transitionCount_eq_of_outlines houtlines).symm,
      renamed.stateSets_report⟩
    exact congrArg OrderedSet.size hstates.symm

/-- The gestures of `forked`, with their states counted down and their edges added in another
order. -/
def forkedDown : Automaton :=
  ((∅ : Automaton).addAll
    [⟨7, 5, ⟨"U2", [], ∅⟩⟩, ⟨8, 6, ⟨"U1", [], ∅⟩⟩, ⟨9, 7, ⟨"D1", [], .ofList [2]⟩⟩,
      ⟨8, 8, ⟨"M1", [], ∅⟩⟩, ⟨9, 8, ⟨"D1", [], .ofList [1, 3]⟩⟩]).withStart 9

/-- Counting down renames the states of `forked`. -/
theorem renames_forkedDown : Renames (fun s => 10 - s) forked forkedDown :=
  .of_edges (by decide +kernel) (by decide +kernel) (by decide +kernel) (by decide +kernel)

/-- Counting the states down does not show in the deterministic automaton. -/
theorem determinize_renamed_forked :
    Renames (fun s => 10 - s) forked forkedDown ∧ forked.hasState forked.start = true ∧
    forked.determinize (some defaultStateLimit) = .ok (forkedMerged, forkedReport) ∧
    ∃ dfa report, forkedDown.determinize (some defaultStateLimit) = .ok (dfa, report) ∧
      dfa.start = forkedMerged.start ∧ dfa.states = forkedMerged.states ∧
      dfa.outlines = forkedMerged.outlines ∧ report.states = 5 ∧ report.transitions = 6 ∧
      report.stateSets = forkedReport.stateSets.mapValues (OrderedSet.image fun s => 10 - s) := by
  have hstart : forked.hasState forked.start = true := by decide +kernel
  refine ⟨renames_forkedDown, hstart, determinize_forked, ?_⟩
  rcases determinize_renamed renames_forkedDown hstart with
    ⟨c, -, hexceeded, -⟩ | ⟨dfa, report, dfa', report', hdfa, hdown, hresult⟩
  · rw [determinize_forked] at hexceeded
    cases hexceeded
  · rw [determinize_forked] at hdfa
    cases hdfa
    exact ⟨dfa', report', hdown, hresult⟩

end Automaton

end TouchAutomata
