import TouchAutomata.Automaton.Lookup
import TouchAutomata.Proofs.Ordered.Groups
import Mathlib.Data.List.Induction

/-!
# Edges by source and by target

The edges of an automaton can be kept in two levels: each state with its targets, and each target
with the touches that lead to it. To go through the two levels in order is to go through the edges
(`edges_eq_flatMap_rows`). The labels on the two levels are the same in two automata exactly when
the edges have the same ends and labels in the same order (`labelRows_eq_iff`).
-/

set_option autoImplicit false

namespace TouchAutomata

namespace Edge

variable {e : Edge} {es : List Edge} {t : StateId}

/-- The ends of an edge and its label. -/
def triple (e : Edge) : StateId × StateId × String := (e.source, e.target, e.label)

/-- Twins are edges with the same ends and the same label. -/
theorem triple_eq_iff_twin {d : Edge} : d.triple = e.triple ↔ d.Twin e := by
  simp [triple, Twin]

/-- The touches by target, the targets ascending. -/
def touchesByTarget (es : List Edge) : OrderedMap StateId (List Touch) :=
  es.foldl Automaton.byTarget ∅

/-- The touch of the last edge joins those with its target. -/
theorem touchesByTarget_concat :
    touchesByTarget (es ++ [e]) = Automaton.byTarget (touchesByTarget es) e := by
  simp [touchesByTarget]

/-- A target has the touches of the edges that end in it, in order. -/
theorem get?_touchesByTarget (es : List Edge) (t : StateId) :
    (touchesByTarget es).get? t =
      if es.filter (fun e => e.target = t) = [] then none
      else some ((es.filter fun e => e.target = t).map Edge.touch) := by
  induction es using List.reverseRecOn with
  | nil => rfl
  | append_singleton es e ih =>
    rw [touchesByTarget_concat, Automaton.byTarget, OrderedMap.get?_update]
    by_cases ht : t = e.target
    · subst ht
      rw [if_pos rfl, ih]
      split
      · rename_i hnone
        simp [hnone]
      · simp
    · have hne : e.target ≠ t := Ne.symm ht
      rw [if_neg ht, ih]
      simp [hne]

/-- What a target has is never empty. -/
theorem get?_touchesByTarget_eq_some {us : List Touch} :
    (touchesByTarget es).get? t = some us ↔
      us = (es.filter fun e => e.target = t).map Edge.touch ∧ us ≠ [] := by
  rw [get?_touchesByTarget]
  split
  · rename_i hnone
    simp [hnone]
  · rename_i hsome
    constructor
    · rintro ⟨⟩
      exact ⟨rfl, mt List.map_eq_nil_iff.1 hsome⟩
    · rintro ⟨rfl, -⟩
      rfl

/-- The keys are the targets of the edges. -/
theorem mem_keys_touchesByTarget : t ∈ (touchesByTarget es).keys ↔ t ∈ es.map Edge.target := by
  have hkey : t ∈ (touchesByTarget es).keys ↔ ∃ us, (touchesByTarget es).get? t = some us := by
    simp [OrderedMap.keys, OrderedMap.get?_eq_some_iff]
  rw [hkey]
  simp only [get?_touchesByTarget_eq_some, exists_eq_left]
  simp

/-- The entries: each target with its touches. -/
theorem toList_touchesByTarget (es : List Edge) :
    (touchesByTarget es).toList = (OrderedSet.ofList (es.map Edge.target)).toList.map fun t =>
      (t, (es.filter fun e => e.target = t).map Edge.touch) := by
  have hkeys : (touchesByTarget es).keys = (OrderedSet.ofList (es.map Edge.target)).toList := by
    apply Ascending.eq_of_mem_iff (touchesByTarget es).ascending (OrderedSet.ascending _)
    intro t
    show t ∈ (touchesByTarget es).keys ↔ t ∈ OrderedSet.ofList (es.map Edge.target)
    rw [OrderedSet.mem_ofList]
    exact mem_keys_touchesByTarget
  rw [← hkeys]
  apply OrderedMap.toList_eq_map
  intro t us hus
  exact (get?_touchesByTarget_eq_some.1 hus).1

end Edge

namespace Automaton

variable {a b : Automaton} {s t : StateId}

/-- Each state with the touches that lead out of it, by target. -/
def rows (a : Automaton) : List (StateId × List (StateId × List Touch)) :=
  a.states.toList.map fun s => (s, (Edge.touchesByTarget (a.leaving s)).toList)

/-- Each state with the labels that lead out of it, by target. -/
def labelRows (a : Automaton) : List (StateId × List (StateId × List String)) :=
  a.rows.map fun row => (row.1, row.2.map fun cell => (cell.1, cell.2.map Touch.label))

/-- Out of a state lead the touches of its edges, by target. -/
theorem outgoing_of_hasState (h : a.hasState s = true) :
    a.outgoing s = .ok (Edge.touchesByTarget (a.leaving s)) := by
  rw [outgoing, edgesFrom, if_pos h]
  rfl

/-- The touches of the edges from one state to another, in the order of the edges. -/
def touchesBetween (a : Automaton) (s t : StateId) : List Touch :=
  (a.edges.filter fun e => e.source = s ∧ e.target = t).map Edge.touch

/-- No touch lies between two states exactly when no edge joins them. -/
theorem touchesBetween_eq_nil_iff :
    a.touchesBetween s t = [] ↔ ¬ ∃ e ∈ a.edges, e.source = s ∧ e.target = t := by
  simp [touchesBetween]

/-- Of the edges that leave a state, those to a target are the edges between the two. -/
theorem map_touch_leaving (a : Automaton) (s t : StateId) :
    ((a.leaving s).filter fun e => e.target = t).map Edge.touch = a.touchesBetween s t := by
  rw [leaving, List.filter_filter, touchesBetween]
  simp only [Bool.decide_and, Bool.and_comm]

/-- From a state of the automaton the touches to a target are given, unless there are none. -/
theorem between_of_hasState (h : a.hasState s = true) (t : StateId) :
    a.between s t =
      if a.touchesBetween s t = [] then .error (.transitionNotFound s t)
      else .ok (a.touchesBetween s t) := by
  have hfrom : a.edgesFrom s = .ok (a.leaving s) := by rw [edgesFrom, if_pos h]
  simp only [← map_touch_leaving, List.map_eq_nil_iff]
  unfold between
  cases hfound : (a.leaving s).filter fun e => e.target = t with
  | nil => simp [hfrom, hfound, bind, Except.bind]
  | cons e es => simp [hfrom, hfound, bind, Except.bind]

/-- The edges lie in the order of their sources. -/
theorem pairwise_source (a : Automaton) :
    a.edges.Pairwise fun d e => compare e.source d.source ≠ .lt := by
  refine a.orderly.imp fun {d e} h hlt => ?_
  exact h.1 (.inl (Std.compare_eq_lt.1 hlt))

/-- The edges that leave one state lie in the order of their targets. -/
theorem pairwise_target (a : Automaton) (s : StateId) :
    (a.leaving s).Pairwise fun d e => compare e.target d.target ≠ .lt := by
  refine (a.orderly.sublist List.filter_sublist).imp_of_mem fun {d e} hd he h hlt => ?_
  have hsource : e.source = d.source := (mem_leaving.1 he).2.trans (mem_leaving.1 hd).2.symm
  exact h.1 (.inr ⟨hsource, Std.compare_eq_lt.1 hlt⟩)

/-- The edges, state by state. -/
theorem flatMap_leaving (a : Automaton) : a.states.toList.flatMap a.leaving = a.edges := by
  apply flatMap_filter_eq a.states.ascending a.pairwise_source
  intro e he
  exact mem_states.2 ⟨e, he, .inl rfl⟩

/-- The edges that leave a state, target by target. -/
theorem flatMap_touchesByTarget (a : Automaton) (s : StateId) :
    ((Edge.touchesByTarget (a.leaving s)).toList.flatMap fun cell =>
      cell.2.map fun u => ⟨s, cell.1, u⟩) = a.leaving s := by
  have htargets : ∀ e ∈ a.leaving s,
      e.target ∈ (OrderedSet.ofList ((a.leaving s).map Edge.target)).toList := by
    intro e he
    rw [← OrderedSet.mem_def, OrderedSet.mem_ofList]
    exact List.mem_map_of_mem he
  rw [Edge.toList_touchesByTarget, List.flatMap_map]
  conv_rhs =>
    rw [← flatMap_filter_eq (OrderedSet.ascending _) (a.pairwise_target s) htargets]
  refine List.flatMap_congr fun t _ => ?_
  have hedge : ∀ e ∈ (a.leaving s).filter (fun e => e.target = t),
      (⟨s, t, e.touch⟩ : Edge) = e := by
    intro e he
    rw [List.mem_filter, mem_leaving, decide_eq_true_eq] at he
    rw [← he.1.2, ← he.2]
  have hmap := List.map_congr_left hedge
  rw [List.map_id'] at hmap
  rw [List.map_map]
  exact hmap

/-- To go through the states, for each of them through its targets, and for each of these through
its touches, is to go through the edges. -/
theorem edges_eq_flatMap_rows (a : Automaton) :
    a.edges = a.rows.flatMap fun row => row.2.flatMap fun cell =>
      cell.2.map fun u => ⟨row.1, cell.1, u⟩ := by
  rw [rows, List.flatMap_map]
  conv_lhs => rw [← a.flatMap_leaving]
  exact List.flatMap_congr fun s _ => (a.flatMap_touchesByTarget s).symm

/-- To go through the labels on the two levels is to go through the ends and the labels of the
edges. -/
theorem map_triple_eq_flatMap_labelRows (a : Automaton) :
    a.edges.map Edge.triple = a.labelRows.flatMap fun row => row.2.flatMap fun cell =>
      cell.2.map fun l => (row.1, cell.1, l) := by
  conv_lhs => rw [a.edges_eq_flatMap_rows]
  simp only [labelRows, List.flatMap_map, List.map_flatMap, List.map_map]
  rfl

/-- The states depend on the ends of the edges only. -/
theorem states_eq_of_map_triple (h : a.edges.map Edge.triple = b.edges.map Edge.triple) :
    a.states = b.states := by
  have hends : ∀ c : Automaton, c.states =
      .ofList ((c.edges.map Edge.triple).flatMap fun p => [p.1, p.2.1]) := by
    intro c
    rw [List.flatMap_map]
    rfl
  rw [hends a, hends b, h]

/-- The rows of labels are made of the ends and the labels of the edges. -/
theorem labelRows_eq_map (a : Automaton) :
    a.labelRows = a.states.toList.map fun s =>
      let out := (a.edges.map Edge.triple).filter fun p => p.1 = s
      (s, (OrderedSet.ofList (out.map fun p => p.2.1)).toList.map fun t =>
        (t, (out.filter fun p => p.2.1 = t).map fun p => p.2.2)) := by
  rw [labelRows, rows, List.map_map]
  refine List.map_congr_left fun s _ => ?_
  simp only [Function.comp_def, Edge.toList_touchesByTarget, List.map_map, List.filter_map]
  rfl

/-- Two automata have the same rows of labels exactly when their edges have the same ends and labels
in the same order. -/
theorem labelRows_eq_iff :
    a.labelRows = b.labelRows ↔ a.edges.map Edge.triple = b.edges.map Edge.triple := by
  constructor
  · intro h
    rw [map_triple_eq_flatMap_labelRows, map_triple_eq_flatMap_labelRows, h]
  · intro h
    rw [labelRows_eq_map, labelRows_eq_map, states_eq_of_map_triple h, h]

/-- Automata are the same, triggers apart, exactly when they have the same start state and, in
order, the same ends and labels. -/
theorem alike_iff :
    a.alike b = true ↔ a.start = b.start ∧ a.edges.map Edge.triple = b.edges.map Edge.triple := by
  simp only [alike, Bool.and_eq_true, decide_eq_true_eq]
  rfl

end Automaton

end TouchAutomata
