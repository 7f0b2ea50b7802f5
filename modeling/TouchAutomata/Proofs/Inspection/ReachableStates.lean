import TouchAutomata.Inspection.Reachability
import TouchAutomata.Proofs.Automaton.AttainedSets

/-!
# What the search for reachable states finds

Between two layers of the search an edge that leaves a state seen leaves the border or leads to a
state seen (`Bordered`). Each layer but the last brings the target of an edge that was not seen
before, so the layers suffice (`closed_spread`), and the search finds the states that paths lead to
(`mem_reachableFrom`). The unreachable states of an inspection are those that no word leads to
(`mem_unreachable`).
-/

set_option autoImplicit false

namespace TouchAutomata

/-- A set is empty exactly if it has no member. -/
theorem OrderedSet.isEmpty_iff {α : Type} [Ord α] {S : OrderedSet α} :
    S.isEmpty = true ↔ ∀ x, x ∉ S := by
  rw [isEmpty, List.isEmpty_iff, List.eq_nil_iff_forall_not_mem]
  rfl

namespace Automaton

variable {a : Automaton} {S seen border : StateSet} {layers : Nat} {s t : StateId}
variable {w : List String}

/-! ## One layer -/

/-- The states that the next layer brings. -/
def fresh (a : Automaton) (seen border : StateSet) : StateSet :=
  (a.successors border).filter (· ∉ seen)

/-- The next layer brings the targets of edges that leave the border, if they were not seen. -/
theorem mem_fresh :
    t ∈ a.fresh seen border ↔ (∃ e ∈ a.edges, e.source ∈ border ∧ e.target = t) ∧ t ∉ seen := by
  simp [fresh, successors, and_assoc]

/-- A layer that brings no state is the last. -/
theorem spread_succ : a.spread (layers + 1) seen border =
    if (a.fresh seen border).isEmpty then seen
    else a.spread layers (seen ∪ a.fresh seen border) (a.fresh seen border) := rfl

/-- Edges lead from a set to members of it only. -/
def Closed (a : Automaton) (S : StateSet) : Prop :=
  ∀ e ∈ a.edges, e.source ∈ S → e.target ∈ S

/-- Edges lead from the states seen to states seen, those apart that leave the border. -/
def Bordered (a : Automaton) (seen border : StateSet) : Prop :=
  ∀ e ∈ a.edges, e.source ∈ seen → e.source ∈ border ∨ e.target ∈ seen

/-- If the border brings no state, no edge leads out of what was seen. -/
theorem Bordered.closed (h : a.Bordered seen border)
    (hnone : ∀ t, t ∉ a.fresh seen border) : a.Closed seen := by
  intro e he hs
  rcases h e he hs with hborder | ht
  · by_contra ht
    exact hnone e.target (mem_fresh.2 ⟨⟨e, he, hborder, rfl⟩, ht⟩)
  · exact ht

/-- The states that a layer brings are the border of the next one. -/
theorem Bordered.next (h : a.Bordered seen border) :
    a.Bordered (seen ∪ a.fresh seen border) (a.fresh seen border) := by
  intro e he hs
  rcases OrderedSet.mem_union.1 hs with hs | hs
  · right
    rw [OrderedSet.mem_union]
    by_cases ht : e.target ∈ seen
    · exact .inl ht
    · exact .inr (mem_fresh.2 ⟨⟨e, he, (h e he hs).resolve_right ht, rfl⟩, ht⟩)
  · exact .inl hs

/-- The edges whose targets were not seen. -/
def unseen (a : Automaton) (seen : StateSet) : List Edge :=
  a.edges.filter fun e => e.target ∉ seen

/-- A layer that brings a state shows the target of an edge. -/
theorem length_unseen_lt (ht : t ∈ a.fresh seen border) :
    (a.unseen (seen ∪ a.fresh seen border)).length < (a.unseen seen).length := by
  obtain ⟨⟨e, he, -, rfl⟩, hunseen⟩ := mem_fresh.1 ht
  have hsub : a.unseen (seen ∪ a.fresh seen border) =
      (a.unseen seen).filter fun e => e.target ∉ a.fresh seen border := by
    rw [unseen, unseen, List.filter_filter]
    refine List.filter_congr fun d _ => ?_
    rw [← Bool.decide_and]
    exact decide_eq_decide.2 (by rw [OrderedSet.mem_union, not_or, and_comm])
  rw [hsub, List.length_filter_lt_length_iff_exists]
  exact ⟨e, List.mem_filter.2 ⟨he, decide_eq_true hunseen⟩, by simp [ht]⟩

/-! ## All layers -/

/-- What was seen stays in what the search finds. -/
theorem mem_spread_of_mem (hs : s ∈ seen) : s ∈ a.spread layers seen border := by
  induction layers generalizing seen border with
  | zero => exact hs
  | succ layers ih =>
    rw [spread_succ]
    split
    · exact hs
    · exact ih (OrderedSet.mem_union.2 (.inl hs))

/-- A path leads to whatever the search finds. -/
theorem exists_path_of_mem_spread (hborder : ∀ s ∈ border, s ∈ seen)
    (ht : t ∈ a.spread layers seen border) : ∃ s, s ∈ seen ∧ ∃ w, a.Path s w t := by
  induction layers generalizing seen border with
  | zero => exact ⟨t, ht, [], .nil t⟩
  | succ layers ih =>
    rw [spread_succ] at ht
    split at ht
    · exact ⟨t, ht, [], .nil t⟩
    · obtain ⟨s, hs, w, hw⟩ := ih (fun s hs => OrderedSet.mem_union.2 (.inr hs)) ht
      rcases OrderedSet.mem_union.1 hs with hs | hs
      · exact ⟨s, hs, w, hw⟩
      · -- a state of the new layer is the target of an edge that leaves the border
        obtain ⟨⟨e, he, hsource, rfl⟩, -⟩ := mem_fresh.1 hs
        exact ⟨e.source, hborder _ hsource, e.label :: w, .cons he hw⟩

/-- If there are as many layers as edges whose targets were not seen, no edge leads out of what the
search finds. -/
theorem closed_spread (h : a.Bordered seen border) (enough : (a.unseen seen).length ≤ layers) :
    a.Closed (a.spread layers seen border) := by
  induction layers generalizing seen border with
  | zero =>
    apply h.closed
    intro t ht
    exact absurd (length_unseen_lt ht) (by omega)
  | succ layers ih =>
    rw [spread_succ]
    split
    · rename_i hempty
      exact h.closed (OrderedSet.isEmpty_iff.1 hempty)
    · rename_i hsome
      rw [OrderedSet.isEmpty_iff] at hsome
      push Not at hsome
      obtain ⟨t, ht⟩ := hsome
      have hless := length_unseen_lt ht
      exact ih h.next (by omega)

/-- The search finds what paths from the given states lead to. -/
theorem mem_reachableFrom : t ∈ a.reachableFrom S ↔ ∃ s, s ∈ S ∧ ∃ w, a.Path s w t := by
  constructor
  · exact exists_path_of_mem_spread fun s hs => hs
  · rintro ⟨s, hs, w, hw⟩
    have hclosed : a.Closed (a.reachableFrom S) :=
      closed_spread (fun e _ hs => .inl hs) (List.length_filter_le _ _)
    exact hw.invariant hclosed (mem_spread_of_mem hs)

/-- The reachable states are those that words lead to, if the automaton has its start state. -/
theorem mem_reachable :
    s ∈ a.reachable ↔ a.hasState a.start = true ∧ ∃ w, a.Reaches w s := by
  rw [reachable]
  split
  · rename_i hstart
    simp [mem_reachableFrom, hstart, Reaches]
  · rename_i hmissing
    constructor
    · exact fun hs => absurd hs List.not_mem_nil
    · exact fun hs => absurd hs.1 hmissing

/-- The unreachable states are those that no word leads to. -/
theorem mem_unreachable : s ∈ a.unreachable ↔ s ∈ a.states ∧ ¬ ∃ w, a.Reaches w s := by
  have hmem : s ∈ a.unreachable ↔ s ∈ a.states ∧ s ∉ a.reachable := by
    simp [unreachable, OrderedSet.mem_def]
  rw [hmem, mem_reachable]
  refine and_congr_right fun hs => not_congr ?_
  constructor
  · exact fun h => h.2
  · rintro ⟨w, hw⟩
    exact ⟨hw.hasState_source (hasState_iff.2 hs), w, hw⟩

/-- No state is unreachable exactly if a word leads to each. -/
theorem unreachable_eq_nil_iff : a.unreachable = [] ↔ ∀ s ∈ a.states, ∃ w, a.Reaches w s := by
  rw [List.eq_nil_iff_forall_not_mem]
  refine forall_congr' fun s => ?_
  rw [mem_unreachable]
  tauto

end Automaton

end TouchAutomata
