import TouchAutomata.Proofs.Definition.BuiltEdges
import TouchAutomata.Proofs.Determinization.DiscoveryOrder
import TouchAutomata.Proofs.Determinization.HaltedExploration

/-!
# When the numbers are spent

Numbers of sets have 32 bits, so a set that is found after as many others as there are numbers
stands under the first number again, which the set of the start state has. An edge that the two
have in common is laid for the latter, and the triggers of the former are lost
(`winding_trigger_lost`). This happens for a gesture that goes through all states there can be,
one after the other (`Finished.found_winding`). So what was shown for at most as many sets as there
are numbers does not hold for one set more.
-/

set_option autoImplicit false

namespace TouchAutomata

/-! ## A gesture through all states -/

namespace Definition

variable {n i j : Nat} {S : StateSet} {l : String} {s t : StateId}

/-- A gesture that goes from state to state up to the last one. From there it can begin again, and
still be in the last state. -/
def winding (n : Nat) : Definition where
  start := some 0
  edges :=
    ⟨"D1", 0, 1, [1]⟩ :: ⟨"D1", .ofNat n, 1, [2]⟩ :: ⟨"U1", .ofNat n, 0, []⟩ ::
      ⟨"U1", .ofNat n, .ofNat n, []⟩ ::
        (List.range (n - 1)).map fun i => ⟨"M1", .ofNat (i + 1), .ofNat (i + 2), []⟩

/-- The automaton of `winding`. -/
def windingBuilt (n : Nat) : Automaton :=
  (winding n).blank.addAll ((winding n).edges.map DefinedEdge.toEdge)

/-- The sets that are found in the automaton of `winding`, in their order. -/
def windingSet (n i : Nat) : StateSet :=
  if i ≤ n then {.ofNat i} else .ofList [0, .ofNat n]

/-- The definition of the gesture is accepted. -/
theorem build_winding : (winding n).build .lenient = .ok (windingBuilt n) :=
  build_lenient (winding n)

/-- The gesture begins in state 0. -/
theorem start_windingBuilt : (windingBuilt n).start = 0 :=
  Automaton.start_addAll _

/-- Where a label leads from a set of states. -/
theorem mem_afterLabel_winding : t ∈ (windingBuilt n).afterLabel S l ↔
    ((0 ∈ S ∨ .ofNat n ∈ S) ∧ l = "D1" ∧ t = 1) ∨
    (.ofNat n ∈ S ∧ l = "U1" ∧ (t = 0 ∨ t = .ofNat n)) ∨
    ∃ i, 0 < i ∧ i < n ∧ .ofNat i ∈ S ∧ l = "M1" ∧ t = .ofNat (i + 1) := by
  have hdown : (Touch.ofEncoding "D1").label = "D1" := by decide +kernel
  have hmove : (Touch.ofEncoding "M1").label = "M1" := by decide +kernel
  have hup : (Touch.ofEncoding "U1").label = "U1" := by decide +kernel
  rw [mem_afterLabel_build build_winding]
  simp only [winding, List.mem_cons, List.mem_map, List.mem_range]
  constructor
  · rintro ⟨x, rfl | rfl | rfl | rfl | ⟨i, hi, rfl⟩, hs, rfl, rfl⟩
    · exact .inl ⟨.inl hs, hdown, rfl⟩
    · exact .inl ⟨.inr hs, hdown, rfl⟩
    · exact .inr (.inl ⟨hs, hup, .inl rfl⟩)
    · exact .inr (.inl ⟨hs, hup, .inr rfl⟩)
    · exact .inr (.inr ⟨i + 1, by omega, by omega, hs, hmove, rfl⟩)
  · rintro (⟨hs | hs, rfl, rfl⟩ | ⟨hs, rfl, rfl | rfl⟩ | ⟨i, hpos, hi, hs, rfl, rfl⟩)
    · exact ⟨_, .inl rfl, hs, hdown, rfl⟩
    · exact ⟨_, .inr (.inl rfl), hs, hdown, rfl⟩
    · exact ⟨_, .inr (.inr (.inl rfl)), hs, hup, rfl⟩
    · exact ⟨_, .inr (.inr (.inr (.inl rfl))), hs, hup, rfl⟩
    · obtain ⟨k, rfl⟩ := Nat.exists_eq_add_of_lt hpos
      rw [Nat.zero_add] at hs ⊢
      exact ⟨_, .inr (.inr (.inr (.inr ⟨k, by omega, rfl⟩))), hs, hmove, rfl⟩

/-- Below their count, numbers of states are different for different positions. -/
theorem ofNat_inj_of_lt (hi : i < UInt32.size) (hj : j < UInt32.size)
    (h : UInt32.ofNat i = UInt32.ofNat j) : i = j := by
  have hnat := congrArg UInt32.toNat h
  rw [UInt32.toNat_ofNat_of_lt' hi, UInt32.toNat_ofNat_of_lt' hj] at hnat
  exact hnat

/-- The first set is that of the start state. -/
theorem windingSet_zero : windingSet n 0 = {(windingBuilt n).start} := by
  rw [start_windingBuilt, windingSet, if_pos (Nat.zero_le n)]
  rfl

/-- Each set but the last has one state, which has the number of the set. -/
theorem mem_windingSet (hi : i ≤ n) : s ∈ windingSet n i ↔ s = .ofNat i := by
  rw [windingSet, if_pos hi, Automaton.mem_singleton_state]

/-- The last set has the start state and the last state. -/
theorem mem_windingSet_last : s ∈ windingSet n (n + 1) ↔ s = 0 ∨ s = .ofNat n := by
  rw [windingSet, if_neg (by omega), OrderedSet.mem_ofList, List.mem_cons, List.mem_singleton]

/-- A state is in the set of its own number, and if it is the first or the last also in the last
set. -/
theorem ofNat_mem_windingSet (few : n < UInt32.size) (hi : i ≤ n + 1) (hj : j ≤ n) :
    UInt32.ofNat j ∈ windingSet n i ↔ j = i ∨ i = n + 1 ∧ (j = 0 ∨ j = n) := by
  rcases Nat.lt_or_eq_of_le hi with hlt | rfl
  · rw [mem_windingSet (by omega)]
    constructor
    · exact fun h => .inl (ofNat_inj_of_lt (by omega) (by omega) h)
    · rintro (rfl | ⟨hlast, -⟩)
      · rfl
      · omega
  · rw [mem_windingSet_last]
    constructor
    · rintro (h | h)
      · exact .inr ⟨rfl, .inl (ofNat_inj_of_lt (by omega) (by decide) h)⟩
      · exact .inr ⟨rfl, .inr (ofNat_inj_of_lt (by omega) (by omega) h)⟩
    · rintro (hlast | ⟨-, rfl | rfl⟩)
      · omega
      · exact .inl rfl
      · exact .inr rfl

/-- No set before the last has the same states. -/
theorem windingSet_inj (hn : 1 < n) (few : n < UInt32.size) (hi : i ≤ n + 1)
    (h : windingSet n i = windingSet n (n + 1)) : i = n + 1 := by
  have hfirst : UInt32.ofNat 0 ∈ windingSet n i := by
    rw [h]
    exact mem_windingSet_last.2 (.inl rfl)
  have hlast : UInt32.ofNat n ∈ windingSet n i := by
    rw [h]
    exact mem_windingSet_last.2 (.inr rfl)
  rw [ofNat_mem_windingSet few hi (by omega)] at hfirst hlast
  omega

/-- A first touch leads from the start state and from the last state to state 1. -/
theorem afterLabel_down (hn : 1 < n) (hS : 0 ∈ S ∨ .ofNat n ∈ S) :
    (windingBuilt n).afterLabel S "D1" = windingSet n 1 := by
  refine OrderedSet.ext_mem fun t => ?_
  rw [mem_afterLabel_winding, mem_windingSet hn.le]
  simp [hS]

/-- Lifting the finger in the last state leads to the last set. -/
theorem afterLabel_up (hS : .ofNat n ∈ S) :
    (windingBuilt n).afterLabel S "U1" = windingSet n (n + 1) := by
  refine OrderedSet.ext_mem fun t => ?_
  rw [mem_afterLabel_winding, mem_windingSet_last]
  simp [hS]

/-- A move leads from a set to the next, and only from a set that has one state between the first
and the last. -/
theorem afterLabel_move (few : n < UInt32.size) (hi : i ≤ n + 1) (hpos : 0 < j) (hj : j < n)
    (hS : UInt32.ofNat j ∈ windingSet n i) :
    i = j ∧ (windingBuilt n).afterLabel (windingSet n i) "M1" = windingSet n (i + 1) := by
  obtain rfl : i = j := by
    rw [ofNat_mem_windingSet few hi hj.le] at hS
    omega
  refine ⟨rfl, OrderedSet.ext_mem fun t => ?_⟩
  have hnext : i + 1 ≤ n := hj
  rw [mem_afterLabel_winding, mem_windingSet hnext]
  constructor
  · rintro (⟨-, hl, -⟩ | ⟨-, hl, -⟩ | ⟨k, -, hk, hmem, -, rfl⟩)
    · exact absurd hl (by decide)
    · exact absurd hl (by decide)
    · rw [ofNat_mem_windingSet few hi hk.le] at hmem
      obtain rfl : k = i := by omega
      rfl
  · rintro rfl
    exact .inr (.inr ⟨i, hpos, hj, hS, rfl, rfl⟩)

/-- From each of the sets the labels lead to sets up to the next one. -/
theorem exists_windingSet_of_mem (hn : 1 < n) (few : n < UInt32.size) (hi : i ≤ n + 1)
    (ht : t ∈ (windingBuilt n).afterLabel (windingSet n i) l) :
    ∃ j, j ≤ i + 1 ∧ j ≤ n + 1 ∧
      (windingBuilt n).afterLabel (windingSet n i) l = windingSet n j := by
  rcases mem_afterLabel_winding.1 ht with ⟨hS, rfl, -⟩ | ⟨hS, rfl, -⟩ | ⟨k, hpos, hk, hS, rfl, -⟩
  · exact ⟨1, by omega, by omega, afterLabel_down hn hS⟩
  · have hlast := (ofNat_mem_windingSet few hi le_rfl).1 hS
    exact ⟨n + 1, by omega, le_rfl, afterLabel_up hS⟩
  · obtain ⟨rfl, hmove⟩ := afterLabel_move few hi hpos hk hS
    exact ⟨i + 1, le_rfl, by omega, hmove⟩

/-- Each of the sets is reached from the start state. -/
theorem attains_windingSet (hn : 1 < n) (few : n < UInt32.size) (hi : i ≤ n + 1) :
    (windingBuilt n).Attains (windingSet n i) := by
  induction i with
  | zero =>
    rw [windingSet_zero]
    exact Automaton.attains_start
  | succ i ih =>
    have hnext : ∃ l, (windingBuilt n).afterLabel (windingSet n i) l = windingSet n (i + 1) := by
      have hmem : UInt32.ofNat i ∈ windingSet n i := (mem_windingSet (by omega)).2 rfl
      rcases Nat.eq_zero_or_pos i with rfl | hpos
      · exact ⟨"D1", afterLabel_down hn (.inl hmem)⟩
      · rcases Nat.lt_or_eq_of_le (Nat.le_of_lt_succ hi) with hlt | rfl
        · exact ⟨"M1", (afterLabel_move few (by omega) hpos hlt hmem).2⟩
        · exact ⟨"U1", afterLabel_up hmem⟩
    obtain ⟨l, hl⟩ := hnext
    obtain ⟨t, ht⟩ : ∃ t, t ∈ windingSet n (i + 1) := by
      rcases Nat.lt_or_eq_of_le hi with hlt | heq
      · exact ⟨_, (mem_windingSet (by omega)).2 rfl⟩
      · rw [heq]
        exact ⟨0, mem_windingSet_last.2 (.inl rfl)⟩
    rw [← hl] at ht ⊢
    exact (ih (by omega)).afterLabel ht

/-- A group for a first touch leads to state 1. -/
theorem targets_winding (hn : 1 < n) {g : LabelGroup}
    (hg : g ∈ ((windingBuilt n).labelGroups S).values) (hlabel : g.touch.label = "D1") :
    g.targets = windingSet n 1 := by
  obtain ⟨t, ht⟩ := Automaton.exists_mem_labelGroups_iff.1 ⟨g, hg, rfl⟩
  rw [Automaton.targets_of_mem_labelGroups hg, hlabel] at *
  rcases mem_afterLabel_winding.1 ht with ⟨hS, -, -⟩ | ⟨-, hl, -⟩ | ⟨k, -, -, -, hl, -⟩
  · exact afterLabel_down hn hS
  · exact absurd hl (by decide)
  · exact absurd hl (by decide)

/-- The edges of the automaton come from the gesture. -/
theorem mem_edges_winding {e : Edge} (he : e ∈ (windingBuilt n).edges) :
    ∃ x ∈ (winding n).edges, x.toEdge = e := by
  obtain ⟨x, hx, rfl⟩ := (mem_edges_build build_winding).1 he
  exact ⟨x, List.mem_of_find?_eq_some hx, rfl⟩

/-- The first group of the start state is that of its first touch, and has the trigger of this edge
alone. -/
theorem exists_group_start (hn : 1 < n) (few : n < UInt32.size) :
    ∃ g gs, ((windingBuilt n).labelGroups (windingSet n 0)).values = g :: gs ∧
      g.touch.label = "D1" ∧ ∀ k ∈ g.touch.triggers, k = 1 := by
  have htarget : (1 : StateId) ∈ (windingBuilt n).afterLabel (windingSet n 0) "D1" := by
    rw [afterLabel_down hn (.inl ((mem_windingSet (Nat.zero_le n)).2 rfl)), mem_windingSet hn.le]
    rfl
  obtain ⟨g', hg', -⟩ := Automaton.exists_mem_labelGroups_iff.2 ⟨_, htarget⟩
  obtain ⟨g, gs, hvalues⟩ := List.exists_cons_of_ne_nil (List.ne_nil_of_mem hg')
  have hg : g ∈ ((windingBuilt n).labelGroups (windingSet n 0)).values := by simp [hvalues]
  refine ⟨g, gs, hvalues, ?_, ?_⟩
  · obtain ⟨t, ht⟩ := Automaton.exists_mem_labelGroups_iff.1 ⟨g, hg, rfl⟩
    rcases mem_afterLabel_winding.1 ht with ⟨-, hl, -⟩ | ⟨hmem, -, -⟩ | ⟨k, hpos, hk, hmem, -, -⟩
    · exact hl
    · rw [ofNat_mem_windingSet few (Nat.zero_le _) le_rfl] at hmem
      omega
    · rw [ofNat_mem_windingSet few (Nat.zero_le _) hk.le] at hmem
      omega
  · intro k hk
    obtain ⟨e, he, hsource, -, hk⟩ := (Automaton.triggers_of_mem_labelGroups hg k).1 hk
    obtain ⟨x, hx, rfl⟩ := mem_edges_winding he
    rw [DefinedEdge.mem_triggers_toEdge] at hk
    simp only [winding, List.mem_cons, List.mem_map, List.mem_range] at hx
    rcases hx with rfl | rfl | rfl | rfl | ⟨i, -, rfl⟩
    · exact List.mem_singleton.1 hk
    · have hzero := (ofNat_mem_windingSet few (Nat.zero_le _) le_rfl).1 hsource
      omega
    · exact absurd hk List.not_mem_nil
    · exact absurd hk List.not_mem_nil
    · exact absurd hk List.not_mem_nil

/-- The first touch in the last state repeats no earlier edge, so its trigger is kept. -/
theorem keeps_winding (hn : 1 < n) (few : n < UInt32.size) :
    (winding n).Keeps ⟨"D1", .ofNat n, 1, [2]⟩ := by
  have hup : (Touch.ofEncoding "U1").label ≠ (Touch.ofEncoding "D1").label := by decide +kernel
  have hmove : (Touch.ofEncoding "M1").label ≠ (Touch.ofEncoding "D1").label := by decide +kernel
  obtain ⟨y, hy, hsource, -, hlabel⟩ :=
    exists_keeps (d := winding n) (x := ⟨"D1", .ofNat n, 1, [2]⟩) (.tail _ (.head _))
  have hmem := List.mem_of_find?_eq_some hy
  simp only [winding, List.mem_cons, List.mem_map, List.mem_range] at hmem
  rcases hmem with rfl | rfl | rfl | rfl | ⟨i, -, rfl⟩
  · have hzero : 0 = n := ofNat_inj_of_lt (by decide) few hsource
    omega
  · exact hy
  · exact absurd hlabel hup
  · exact absurd hlabel hup
  · exact absurd hlabel hmove

/-- The automaton has its start state. -/
theorem hasState_windingBuilt : (windingBuilt n).hasState (windingBuilt n).start = true := by
  obtain ⟨y, hy, hsource, -⟩ := exists_keeps (d := winding n) (x := ⟨"D1", 0, 1, [1]⟩) (.head _)
  have hstart : y.source = (windingBuilt n).start := by rw [hsource, start_windingBuilt]
  rw [← hstart]
  exact Automaton.hasState_source ((mem_edges_build build_winding).2 ⟨y, hy, rfl⟩)

end Definition

namespace Exploration

open Definition

variable {n i : Nat} {limit : StateLimit} {x : Exploration} {p : StateSet × StateId}

/-- The sets are found in their order, and no others. -/
theorem Finished.found_winding (hn : 1 < n) (few : n < UInt32.size)
    (h : Finished (windingBuilt n) limit ∅ x) (hp : x.found[i]? = some p) :
    i ≤ n + 1 ∧ p.1 = windingSet n i := by
  induction i using Nat.strong_induction_on generalizing p with
  | _ i ih =>
    rcases Nat.eq_zero_or_pos i with rfl | hpos
    · rw [Stage.found_zero h] at hp
      rw [← Option.some.inj hp]
      exact ⟨Nat.zero_le _, windingSet_zero.symm⟩
    · obtain ⟨j, hj, q, hq, g, hg, htargets⟩ := Stage.exists_earlier h hp hpos
      obtain ⟨hjn, hset⟩ := ih j hj hq
      obtain ⟨t, ht⟩ := Automaton.exists_mem_labelGroups_iff.1 ⟨g, hg, rfl⟩
      rw [hset] at ht
      obtain ⟨k, hk, hkn, hnext⟩ := exists_windingSet_of_mem hn few hjn ht
      rw [Automaton.targets_of_mem_labelGroups hg, hset, hnext] at htargets
      -- a set before the `i`-th is not found again
      obtain rfl : k = i := by
        obtain ⟨hi, -⟩ := List.getElem?_eq_some_iff.1 hp
        by_contra hne
        have hki : k < i := by omega
        have hr := List.getElem?_eq_getElem (hki.trans hi)
        have hfirst := (ih k hki hr).2
        exact hne ((Stage.numbered h).index_unique hr hp (hfirst.trans htargets))
      exact ⟨hkn, htargets.symm⟩

/-- One set more is found than the gesture has states, and the last is that of the first and the
last state. -/
theorem Finished.last_winding (hn : 1 < n) (few : n < UInt32.size)
    (h : Finished (windingBuilt n) limit ∅ x) :
    x.found.length = n + 2 ∧
    x.found.getLast? = some (windingSet n (n + 1), nth (n + 1)) := by
  obtain ⟨m, hm⟩ := h.exists_mem_found_iff.2 (attains_windingSet hn few le_rfl)
  obtain ⟨i, hi⟩ := List.mem_iff_getElem?.1 hm
  obtain ⟨hin, hset⟩ := h.found_winding hn few hi
  obtain rfl := windingSet_inj hn few hin hset.symm
  obtain rfl := (Stage.numbered h).number_eq hi
  obtain ⟨hlt, -⟩ := List.getElem?_eq_some_iff.1 hi
  have hlength : x.found.length = n + 2 := by
    by_contra hne
    have hnext : n + 2 < x.found.length := by omega
    have := (h.found_winding hn few (List.getElem?_eq_getElem hnext)).1
    omega
  refine ⟨hlength, ?_⟩
  rw [List.getLast?_eq_getElem?, hlength]
  exact hi

/-- The edge of the start state is the first that is laid, and its touch stays. -/
theorem Finished.triggers_winding (hn : 1 < n) (few : n < UInt32.size)
    (h : Finished (windingBuilt n) limit ∅ x) {e : Edge} (he : e ∈ x.finished.edges)
    (hsource : e.source = Automaton.defaultStart) (hlabel : e.label = "D1") {k : Int32}
    (hk : k ∈ e.touch.triggers) : k = 1 := by
  obtain ⟨g, gs, hvalues, hdown, htriggers⟩ := exists_group_start hn few
  obtain ⟨S, g', hS, hg', htarget, htouch⟩ := h.exists_task rfl he
  obtain ⟨rest, hfound⟩ := List.head?_eq_some_iff.1
    (List.head?_eq_getElem?.trans (Stage.found_zero h))
  have hhead : (tasksOf (windingBuilt n) x.found).head? = some (e.source, g) := by
    rw [hfound, tasksOf, List.flatMap_cons, ← windingSet_zero, hvalues, hsource]
    rfl
  have hg : g ∈ ((windingBuilt n).labelGroups (windingSet n 0)).values := by simp [hvalues]
  have hsame : g.targets = g'.targets := by
    rw [Edge.label, htouch] at hlabel
    rw [targets_winding hn hg hdown, targets_winding hn hg' hlabel]
  rw [← hsame] at htarget
  rw [h.touch_eq_of_head hhead he (hlabel.trans hdown.symm) htarget] at hk
  exact htriggers k hk

end Exploration

namespace Definition

variable {n : Nat}

/-- With one set more than there are numbers, the trigger of an edge that is kept can be lost: the
set of its source and the start state stands under the first number, and the edge that leaves this
number has the trigger of the start state alone. -/
theorem winding_trigger_lost (hn : n + 1 = UInt32.size) :
    (winding n).build .lenient = .ok (windingBuilt n) ∧
    (windingBuilt n).attainedCount = UInt32.size + 1 ∧
    (winding n).Keeps ⟨"D1", .ofNat n, 1, [2]⟩ ∧
    ∃ dfa report S, (windingBuilt n).determinize none = .ok (dfa, report) ∧
      report.stateSets.get? 1 = some S ∧ .ofNat n ∈ S ∧
      ∀ f ∈ dfa.edges, f.source = 1 →
        f.label = DefinedEdge.label ⟨"D1", .ofNat n, 1, [2]⟩ → 2 ∉ f.touch.triggers := by
  have hone : 1 < n := by
    have : 2 < UInt32.size := by decide
    omega
  have few : n < UInt32.size := by omega
  have hdown : (Touch.ofEncoding "D1").label = "D1" := by decide +kernel
  obtain ⟨dfa, report, h⟩ := Automaton.determinize_unlimited hasState_windingBuilt
  obtain ⟨x, hx, rfl, rfl⟩ := Automaton.determinize_finished h
  obtain ⟨hlength, hlast⟩ := hx.last_winding hone few
  have hnumber : Exploration.nth (n + 1) = 1 := by
    rw [hn]
    decide
  rw [hnumber] at hlast
  have hmem : UInt32.ofNat n ∈ windingSet n (n + 1) := mem_windingSet_last.2 (.inr rfl)
  have hcount : (windingBuilt n).attainedCount = UInt32.size + 1 := by
    rw [← hx.length_eq, hlength, ← hn]
  refine ⟨build_winding, hcount, keeps_winding hone few, _, _, windingSet n (n + 1), h, ?_, hmem,
    ?_⟩
  · have htarget : (1 : StateId) ∈ (windingBuilt n).afterLabel (windingSet n (n + 1)) "D1" := by
      rw [afterLabel_down hone (.inr hmem), mem_windingSet hone.le]
      rfl
    obtain ⟨e, he, hsource, -⟩ :=
      hx.exists_edge_label (List.mem_of_getLast? hlast) ⟨_, htarget⟩
    rw [Exploration.report, OrderedMap.get?_filterKeys_eq_some]
    exact ⟨Exploration.Stage.get?_stateSets_last hx hlast, hsource ▸ Automaton.hasState_source he⟩
  · intro f hf hsource hlabel htwo
    exact absurd (hx.triggers_winding hone few hf hsource (hlabel.trans hdown) htwo) (by decide)

end Definition

end TouchAutomata
