import TouchAutomata.Proofs.Determinization.LabelGroupContents

/-!
# The labels that leave a set of states

The groups of a set of states stand under the labels of the edges that leave the set, one for each
label (`keys_labelGroups`), and in the order of their labels (`pairwise_labelGroups`).
-/

set_option autoImplicit false

namespace TouchAutomata.Automaton

variable {a : Automaton} {S : StateSet} {l : String} {g : LabelGroup}

/-- The touch of a group has the label that the group stands under. -/
theorem label_of_mem_labelGroups (h : (l, g) ∈ (a.labelGroups S).toList) : g.touch.label = l := by
  have hget : (LabelGroup.ofEdges (a.leavingAny S)).get? l = some g :=
    OrderedMap.get?_eq_some_iff.2 h
  have hgather := LabelGroup.get?_ofEdges (a.leavingAny S) l
  rw [hget] at hgather
  exact hgather.label

/-- The groups stand under the labels that leave the set, in their order. -/
theorem keys_labelGroups : (a.labelGroups S).keys = (a.labelsLeaving S).toList := by
  refine (a.labelGroups S).ascending.eq_of_mem_iff (a.labelsLeaving S).ascending fun l => ?_
  rw [← OrderedSet.mem_def, mem_labelsLeaving_iff_afterLabel, ← exists_mem_labelGroups_iff,
    List.mem_map]
  constructor
  · rintro ⟨⟨k, g⟩, hg, rfl⟩
    exact ⟨g, List.mem_map_of_mem hg, label_of_mem_labelGroups hg⟩
  · rintro ⟨g, hg, hl⟩
    obtain ⟨⟨k, g'⟩, hk, rfl⟩ := List.mem_map.1 hg
    exact ⟨⟨k, g'⟩, hk, (label_of_mem_labelGroups hk).symm.trans hl⟩

/-- There are as many groups as labels that leave the set. -/
theorem length_labelGroups : (a.labelGroups S).values.length = (a.labelsLeaving S).size := by
  rw [OrderedSet.size, ← keys_labelGroups, OrderedMap.values, OrderedMap.keys, List.length_map,
    List.length_map]

/-- The groups are in the order of their labels. -/
theorem pairwise_labelGroups :
    (a.labelGroups S).values.Pairwise fun g h => g.touch.label < h.touch.label := by
  refine List.pairwise_map.2 ((List.pairwise_map.1 (a.labelGroups S).ascending).imp_of_mem ?_)
  intro p q hp hq hpq
  rw [label_of_mem_labelGroups hp, label_of_mem_labelGroups hq]
  exact compareOfLessAndEq_eq_lt.1 hpq

end TouchAutomata.Automaton
