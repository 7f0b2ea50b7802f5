import TouchAutomata.Proofs.Determinization.FinishedExploration

/-!
# The order of discovery

The sets stand in the order in which they were found: the set of the start state first, and each
other one behind a set from which a label leads to it (`Stage.exists_earlier`). This holds however
many sets there are. Once the numbers are spent, the set found last stands under its number
(`Stage.get?_stateSets_last`), but of the edges the first ones stay (`Finished.touch_eq_of_head`).
-/

set_option autoImplicit false

namespace TouchAutomata.Exploration

variable {a target : Automaton} {limit : StateLimit} {x : Exploration}
variable {taken : List (StateSet × StateId)} {done todo : List Task}
variable {S : StateSet} {n : StateId} {p : StateSet × StateId} {g : LabelGroup} {e : Edge}
variable {i : Nat}

/-- Each set but the first was found behind a label that leaves a set found before. -/
theorem Stage.exists_earlier (h : Stage a limit target taken done todo x)
    (hp : x.found[i]? = some p) (later : 0 < i) :
    ∃ j < i, ∃ q, x.found[j]? = some q ∧ ∃ g ∈ (a.labelGroups q.1).values, g.targets = p.1 := by
  induction h with
  | begun =>
    obtain ⟨hi, -⟩ := List.getElem?_eq_some_iff.1 hp
    have hone : i < 1 := hi
    omega
  | take stage next ih => exact ih hp
  | @follow taken done todo x y k g stage step ih =>
    rcases follow_eq_ok.1 step with ⟨m, -, rfl⟩ | ⟨-, -, rfl⟩
    · exact ih hp
    · rw [found_lay, found_discover] at hp ⊢
      rcases Nat.lt_or_ge i x.found.length with hi | hi
      · rw [List.getElem?_append_left hi] at hp
        obtain ⟨j, hj, q, hq, hg⟩ := ih hp
        exact ⟨j, hj, q, by rw [List.getElem?_append_left (hj.trans hi), hq], hg⟩
      · -- the set found last is behind the label that is followed
        rw [List.getElem?_append_right hi] at hp
        obtain rfl := List.mem_singleton.1 (List.mem_of_getElem? hp)
        obtain ⟨S, hS, hg⟩ := stage.exists_of_mem_todo (List.mem_cons_self ..)
        obtain ⟨j, hj⟩ := List.mem_iff_getElem?.1 hS
        obtain ⟨hlt, -⟩ := List.getElem?_eq_some_iff.1 hj
        exact ⟨j, by omega, _, by rw [List.getElem?_append_left hlt, hj], g, hg, rfl⟩

/-- A set has one place among those found. -/
theorem Numbered.index_unique (h : x.Numbered) {j : Nat} {q : StateSet × StateId}
    (hp : x.found[i]? = some p) (hq : x.found[j]? = some q) (same : p.1 = q.1) : i = j := by
  have hsame : (x.found.map Prod.fst)[i]? = (x.found.map Prod.fst)[j]? := by
    rw [List.getElem?_map, List.getElem?_map, hp, hq, Option.map_some, Option.map_some, same]
  obtain ⟨hi, -⟩ := List.getElem?_eq_some_iff.1 hp
  rw [← List.length_map (f := Prod.fst)] at hi
  exact (List.getElem?_inj hi h.distinct).1 hsame

/-- Under a number that the set found last has, this set stands. -/
theorem Stage.get?_stateSets_last (h : Stage a limit target taken done todo x)
    (hlast : x.found.getLast? = some (S, n)) : x.stateSets.get? n = some S := by
  obtain ⟨before, hfound⟩ := List.getLast?_eq_some_iff.1 hlast
  rw [h.get?_stateSets_eq, hfound, List.reverse_append, List.reverse_singleton,
    List.singleton_append, List.find?_cons_of_pos (by simp)]
  rfl

/-- Of edges with the same ends and the same label, the one that was laid first stays. -/
theorem Finished.touch_eq_of_head (h : Finished a limit ∅ x)
    (hhead : (tasksOf a x.found).head? = some (e.source, g)) (he : e ∈ x.finished.edges)
    (hlabel : e.label = g.touch.label) (htarget : (g.targets, e.target) ∈ x.found) :
    e.touch = g.touch := by
  obtain ⟨rest, htasks⟩ := List.head?_eq_some_iff.1 hhead
  obtain ⟨es, hresult, hlays⟩ := Stage.laid h
  rw [htasks] at hlays
  rw [edges_finished, hresult, Automaton.mem_edges_addAll_iff] at he
  cases hlays with
  | @cons _ e' _ es hfirst _ =>
    obtain ⟨hsource, htouch, htarget'⟩ := hfirst
    have htwin : e'.Twin e := by
      refine ⟨hsource, (Stage.numbered h).number_unique htarget' htarget, ?_⟩
      rw [hlabel, Edge.label, htouch]
    rcases he with he | ⟨-, hfind⟩
    · exact absurd he List.not_mem_nil
    · rw [List.find?_cons, decide_eq_true htwin] at hfind
      rw [← Option.some.inj hfind, htouch]

end TouchAutomata.Exploration
