import TouchAutomata.Proofs.Automaton.AttainedSets
import TouchAutomata.Proofs.Ordered.Lookup

/-!
# What a label group holds

The edges are taken into their groups one after the other, and the touch of a group is changed
on the way. `get?_ofEdges` says what comes out for any list of edges: a label has a group when
some edge has it, and the group then has the targets and the triggers of exactly the edges with
that label. `gathers_of_mem_labelGroups` says the same of the edges that leave a set of states.
-/

set_option autoImplicit false

namespace TouchAutomata

namespace LabelGroup

variable {es : List Edge} {e : Edge} {l : String} {g : LabelGroup}

/-- A group has the targets and the triggers of exactly the edges with its label, and there is
such an edge. -/
structure Gathers (g : LabelGroup) (l : String) (es : List Edge) : Prop where
  label : g.touch.label = l
  some_edge : ∃ e ∈ es, e.label = l
  mem_targets : ∀ t, t ∈ g.targets ↔ ∃ e ∈ es, e.label = l ∧ e.target = t
  mem_triggers : ∀ i, i ∈ g.touch.triggers ↔ ∃ e ∈ es, e.label = l ∧ i ∈ e.touch.triggers

/-- The first edge with a label begins its group. -/
theorem gathers_join_none (new : ∀ d ∈ es, d.label ≠ e.label) :
    (join e none).Gathers e.label (es ++ [e]) where
  label := rfl
  some_edge := ⟨e, by simp, rfl⟩
  mem_targets t := by
    have h : ∀ d ∈ es, ¬ (d.label = e.label ∧ d.target = t) := fun d hd hdt => new d hd hdt.1
    simp only [join, Automaton.mem_singleton_state, List.mem_append, List.mem_singleton]
    grind
  mem_triggers i := by
    have h : ∀ d ∈ es, ¬ (d.label = e.label ∧ i ∈ d.touch.triggers) := fun d hd hdt =>
      new d hd hdt.1
    simp only [join, List.mem_append, List.mem_singleton]
    grind

/-- A later edge adds its target and its triggers to the group of its label. -/
theorem Gathers.join_some (h : g.Gathers e.label es) :
    (join e (some g)).Gathers e.label (es ++ [e]) where
  label := h.label
  some_edge := ⟨e, by simp, rfl⟩
  mem_targets t := by
    simp only [join, OrderedSet.mem_insert, h.mem_targets, List.mem_append, List.mem_singleton]
    grind
  mem_triggers i := by
    simp only [join, Touch.triggers_addTriggers, OrderedSet.mem_insertAll, h.mem_triggers,
      List.mem_append, List.mem_singleton, ← OrderedSet.mem_def]
    grind

/-- An edge with another label leaves a group as it is. -/
theorem Gathers.append (h : g.Gathers l es) (other : e.label ≠ l) :
    g.Gathers l (es ++ [e]) where
  label := h.label
  some_edge := by
    obtain ⟨d, hd, hl⟩ := h.some_edge
    exact ⟨d, by simp [hd], hl⟩
  mem_targets t := by
    simp only [h.mem_targets, List.mem_append, List.mem_singleton]
    grind
  mem_triggers i := by
    simp only [h.mem_triggers, List.mem_append, List.mem_singleton]
    grind

/-- One more edge joins the group of its label, and no other group changes. -/
theorem get?_ofEdges_concat : (ofEdges (es ++ [e])).get? l =
    if l = e.label then some (join e ((ofEdges es).get? e.label)) else (ofEdges es).get? l := by
  simp [ofEdges, collect, OrderedMap.get?_update]

/-- A label without a group is the label of no edge, and the group of a label gathers the edges
with that label. -/
theorem get?_ofEdges (es : List Edge) (l : String) :
    match (ofEdges es).get? l with
    | none => ∀ e ∈ es, e.label ≠ l
    | some g => g.Gathers l es := by
  induction es using List.reverseRecOn with
  | nil => simp [ofEdges, OrderedMap.get?]
  | append_singleton es e ih =>
    rw [get?_ofEdges_concat]
    by_cases hl : l = e.label
    · subst hl
      rw [if_pos rfl]
      cases hg : (ofEdges es).get? e.label with
      | none => exact gathers_join_none (by simpa [hg] using ih)
      | some g => exact Gathers.join_some (by simpa [hg] using ih)
    · rw [if_neg hl]
      cases hg : (ofEdges es).get? l with
      | none =>
        have hnone : ∀ d ∈ es, d.label ≠ l := by simpa [hg] using ih
        intro d hd
        rcases List.mem_append.1 hd with hd | hd
        · exact hnone d hd
        · rw [List.mem_singleton.1 hd]
          exact Ne.symm hl
      | some g =>
        have hsome : g.Gathers l es := by simpa [hg] using ih
        exact hsome.append (Ne.symm hl)

/-- The touch of a group is written like that of some edge with its label. -/
theorem exists_touch_eq (hg : (ofEdges es).get? l = some g) :
    ∃ e ∈ es, e.label = l ∧ g.touch = ⟨e.touch.core, e.touch.attributes, g.touch.triggers⟩ := by
  induction es using List.reverseRecOn generalizing g with
  | nil => simp [ofEdges, OrderedMap.get?] at hg
  | append_singleton es e ih =>
    have hbefore {h : LabelGroup} (hh : (ofEdges es).get? l = some h) :
        ∃ d ∈ es ++ [e], d.label = l ∧
          h.touch = ⟨d.touch.core, d.touch.attributes, h.touch.triggers⟩ := by
      obtain ⟨d, hd, hdl, htouch⟩ := ih hh
      exact ⟨d, by simp [hd], hdl, htouch⟩
    rw [get?_ofEdges_concat] at hg
    split at hg
    · rename_i hl
      rw [← hl] at hg
      cases hh : (ofEdges es).get? l with
      | none =>
        rw [hh] at hg
        obtain rfl := Option.some.inj hg
        exact ⟨e, by simp, hl.symm, rfl⟩
      | some h =>
        rw [hh] at hg
        obtain rfl := Option.some.inj hg
        obtain ⟨d, hd, hdl, htouch⟩ := hbefore hh
        refine ⟨d, hd, hdl, ?_⟩
        rw [join, Touch.addTriggers, htouch]
    · exact hbefore hg

end LabelGroup

namespace Automaton

variable {a : Automaton} {S : StateSet} {l : String} {g h : LabelGroup}

/-- A group of a set of states is found under the label of its touch, and gathers the edges with
that label that leave the set. -/
theorem gathers_of_mem_labelGroups (hg : g ∈ (a.labelGroups S).values) :
    (a.labelGroups S).get? g.touch.label = some g ∧
      g.Gathers g.touch.label (a.leavingAny S) := by
  obtain ⟨l, hl⟩ := OrderedMap.mem_values.1 hg
  have hgather : g.Gathers l (a.leavingAny S) := by
    have := LabelGroup.get?_ofEdges (a.leavingAny S) l
    rw [labelGroups] at hl
    simpa [hl] using this
  have hlabel := hgather.label
  subst hlabel
  exact ⟨hl, hgather⟩

/-- A set of states has one group for a label. -/
theorem eq_of_mem_labelGroups (hg : g ∈ (a.labelGroups S).values)
    (hh : h ∈ (a.labelGroups S).values) (same : g.touch.label = h.touch.label) : g = h := by
  have hg' := (gathers_of_mem_labelGroups hg).1
  rw [same, (gathers_of_mem_labelGroups hh).1] at hg'
  exact (Option.some.inj hg').symm

/-- The targets of a group are where its label leads from the set. -/
theorem targets_of_mem_labelGroups (hg : g ∈ (a.labelGroups S).values) :
    g.targets = a.afterLabel S g.touch.label := by
  refine OrderedSet.ext_mem fun t => ?_
  rw [(gathers_of_mem_labelGroups hg).2.mem_targets, mem_afterLabel]
  simp only [mem_leavingAny]
  grind

/-- The triggers of a group are those of the edges with its label that leave the set. -/
theorem triggers_of_mem_labelGroups (hg : g ∈ (a.labelGroups S).values) (i : Int32) :
    i ∈ g.touch.triggers ↔
      ∃ e ∈ a.edges, e.source ∈ S ∧ e.label = g.touch.label ∧ i ∈ e.touch.triggers := by
  rw [(gathers_of_mem_labelGroups hg).2.mem_triggers]
  simp only [mem_leavingAny]
  grind

/-- A label leads from a set to some state exactly when the set has a group for it. -/
theorem exists_mem_labelGroups_iff :
    (∃ g ∈ (a.labelGroups S).values, g.touch.label = l) ↔ ∃ t, t ∈ a.afterLabel S l := by
  constructor
  · rintro ⟨g, hg, rfl⟩
    have hgather := (gathers_of_mem_labelGroups hg).2
    obtain ⟨e, he, hl⟩ := hgather.some_edge
    refine ⟨e.target, ?_⟩
    rw [← targets_of_mem_labelGroups hg, hgather.mem_targets]
    exact ⟨e, he, hl, rfl⟩
  · rintro ⟨t, ht⟩
    obtain ⟨e, he, hs, rfl, -⟩ := mem_afterLabel.1 ht
    have hcase := LabelGroup.get?_ofEdges (a.leavingAny S) e.label
    cases hg : (LabelGroup.ofEdges (a.leavingAny S)).get? e.label with
    | none =>
      rw [hg] at hcase
      exact absurd rfl (hcase e (mem_leavingAny.2 ⟨he, hs⟩))
    | some g =>
      rw [hg] at hcase
      exact ⟨g, OrderedMap.mem_values.2 ⟨e.label, hg⟩, hcase.label⟩

/-- The targets of a group of an attained set are an attained set. -/
theorem Attains.targets (hS : a.Attains S) (hg : g ∈ (a.labelGroups S).values) :
    a.Attains g.targets := by
  obtain ⟨t, ht⟩ := exists_mem_labelGroups_iff.1 ⟨g, hg, rfl⟩
  rw [targets_of_mem_labelGroups hg]
  exact hS.afterLabel ht

/-- If an edge leaves an attained set, the start state is a state of the automaton. -/
theorem Attains.hasState_start (hS : a.Attains S) (hg : g ∈ (a.labelGroups S).values) :
    a.hasState a.start = true := by
  obtain ⟨e, he, -⟩ := (gathers_of_mem_labelGroups hg).2.some_edge
  obtain ⟨he, hs⟩ := mem_leavingAny.1 he
  obtain ⟨-, w, hw⟩ := hS
  exact ((hw e.source).1 hs).hasState_source (hasState_source he)

end Automaton

end TouchAutomata
