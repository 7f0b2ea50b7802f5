import TouchAutomata.Proofs.Automaton.AttainedSets
import TouchAutomata.Proofs.Automaton.LeastWords
import Mathlib.Data.Set.Function

/-!
# Other numbers for the states

An automaton may be another one with other numbers for the states that words lead to
(`Renumbers`). The same words then lead to a state and to the one it stands for
(`Renumbers.reaches_iff`). If both automata have their states in the order of their least words,
the numbers are in the same order (`Renumbers.lt_iff`), so they are the same if in both automata
they count from one (`Renumbers.eq_self`).
-/

set_option autoImplicit false

namespace TouchAutomata

/-- The states of `b` stand one to one for the states of `a` that words lead to. The edges of `b`
are those of `a` between the latter, with their touches, and the same states accept. -/
structure Renumbers (f : StateId → StateId) (b a : Automaton) : Prop where
  start_eq : f b.start = a.start
  bijOn : Set.BijOn f {d | d ∈ b.states} {s | ∃ w, a.Reaches w s}
  edge_iff : ∀ d ∈ b.states, ∀ e ∈ b.states, ∀ touch,
    ⟨d, e, touch⟩ ∈ b.edges ↔ ⟨f d, f e, touch⟩ ∈ a.edges
  accepts_eq : ∀ d ∈ b.states, b.accepts d = a.accepts (f d)

namespace Renumbers

variable {f : StateId → StateId} {a b : Automaton} {d e : StateId} {w : List String}

open Automaton

/-- The same words lead between states and between those they stand for. -/
theorem path_iff (h : Renumbers f b a) (hd : d ∈ b.states) (he : e ∈ b.states) :
    b.Path d w e ↔ a.Path (f d) w (f e) := by
  induction w generalizing d with
  | nil =>
    rw [path_nil, path_nil]
    exact ⟨congrArg f, h.bijOn.injOn hd he⟩
  | cons l w ih =>
    rw [path_cons, path_cons]
    constructor
    · rintro ⟨⟨_, r, touch⟩, hmem, rfl, hl, hrest⟩
      have hr : r ∈ b.states := hasState_iff.1 (hasState_target hmem)
      exact ⟨_, (h.edge_iff _ hd _ hr touch).1 hmem, rfl, hl, (ih hr).1 hrest⟩
    · rintro ⟨⟨_, t, touch⟩, hmem, rfl, hl, hrest⟩
      -- a word leads to the target of the edge, so a state stands for it
      obtain ⟨v, hv⟩ := h.bijOn.mapsTo hd
      have hedge : a.Path (f d) [l] t := path_cons.2 ⟨_, hmem, rfl, hl, .nil t⟩
      have ht : ∃ w, a.Reaches w t := ⟨v ++ [l], path_append.2 ⟨_, hv, hedge⟩⟩
      obtain ⟨r, hr, rfl⟩ := h.bijOn.surjOn ht
      exact ⟨_, (h.edge_iff _ hd _ hr touch).2 hmem, rfl, hl, (ih hr).2 hrest⟩

/-- The same words lead to a state and to the one it stands for. -/
theorem reaches_iff (h : Renumbers f b a) (hstart : b.start ∈ b.states) (hd : d ∈ b.states) :
    b.Reaches w d ↔ a.Reaches w (f d) := by
  rw [Reaches, h.path_iff hstart hd, h.start_eq, Reaches]

/-- A state and the one it stands for have the same least word. -/
theorem leastWord_iff (h : Renumbers f b a) (hstart : b.start ∈ b.states) (hd : d ∈ b.states) :
    b.LeastWord w d ↔ a.LeastWord w (f d) := by
  simp only [LeastWord, h.reaches_iff hstart hd]

/-- The states that stand for others are in the order of these. -/
theorem lt_iff (h : Renumbers f b a) (hb : b.Sequential) (ha : a.Sequential)
    (hstart : b.start ∈ b.states) (hmem : ∀ d ∈ b.states, f d ∈ a.states)
    (hd : d ∈ b.states) (he : e ∈ b.states) : d < e ↔ f d < f e := by
  obtain ⟨v, hv⟩ := hb.exists_leastWord hd
  obtain ⟨w, hw⟩ := hb.exists_leastWord he
  rw [hb.lt_iff_wordBefore hd he hv hw, ha.lt_iff_wordBefore (hmem d hd) (hmem e he)]
  · exact (h.leastWord_iff hstart hd).1 hv
  · exact (h.leastWord_iff hstart he).1 hw

/-- The states stand for those of the other automaton in their order, if both lie in the order of
their least words. -/
theorem map_states (h : Renumbers f b a) (hb : b.Sequential) (ha : a.Sequential)
    (hstart : b.start ∈ b.states) (hall : ∀ s, s ∈ a.states ↔ ∃ w, a.Reaches w s) :
    b.states.toList.map f = a.states.toList := by
  have hmem : ∀ d ∈ b.states, f d ∈ a.states := fun d hd => (hall _).2 (h.bijOn.mapsTo hd)
  have hascending : Ascending (b.states.toList.map f) := by
    refine List.pairwise_map.2 (b.states.ascending.imp_of_mem fun {d e} hd he hde => ?_)
    rw [Std.compare_eq_lt] at hde ⊢
    exact (h.lt_iff hb ha hstart hmem hd he).1 hde
  refine hascending.eq_of_mem_iff a.states.ascending fun s => ?_
  rw [List.mem_map, ← OrderedSet.mem_def, hall]
  constructor
  · rintro ⟨d, hd, rfl⟩
    exact h.bijOn.mapsTo hd
  · exact fun hs => h.bijOn.surjOn hs

/-- If the states of both automata count from one in the order of their least words, each state
stands for itself. -/
theorem eq_self (h : Renumbers f b a) (hb : b.Sequential) (ha : a.Sequential)
    (hstart : b.start ∈ b.states) (hall : ∀ s, s ∈ a.states ↔ ∃ w, a.Reaches w s)
    (bnumbers : b.states.toList.map UInt32.toNat = List.range' 1 b.stateCount)
    (anumbers : a.states.toList.map UInt32.toNat = List.range' 1 a.stateCount) :
    b.states = a.states ∧ ∀ d ∈ b.states, f d = d := by
  have hmap := h.map_states hb ha hstart hall
  have hcount : b.stateCount = a.stateCount := by
    rw [stateCount, stateCount, OrderedSet.size, OrderedSet.size, ← hmap, List.length_map]
  have hlists : b.states.toList = a.states.toList := by
    rw [← List.map_inj_right fun s t => UInt32.toNat_inj.1, bnumbers, anumbers, hcount]
  refine ⟨OrderedSet.ext_toList hlists, fun d hd => ?_⟩
  have hsame : b.states.toList.map f = b.states.toList.map id := by
    rw [List.map_id, hmap, hlists]
  exact List.map_inj_left.1 hsame d hd

/-- If each state stands for itself, the automata have the same edges. -/
theorem mem_edges_iff (h : Renumbers f b a) (hstates : b.states = a.states)
    (hself : ∀ d ∈ b.states, f d = d) {c : Edge} : c ∈ b.edges ↔ c ∈ a.edges := by
  have hends : c.source ∈ b.states → c.target ∈ b.states → (c ∈ b.edges ↔ c ∈ a.edges) := by
    intro hsource htarget
    have hiff := h.edge_iff _ hsource _ htarget c.touch
    rw [hself _ hsource, hself _ htarget] at hiff
    exact hiff
  constructor
  · intro hc
    have hsource := hasState_iff.1 (hasState_source hc)
    exact (hends hsource (hasState_iff.1 (hasState_target hc))).1 hc
  · intro hc
    have hsource := hasState_iff.1 (hasState_source hc)
    have htarget := hasState_iff.1 (hasState_target hc)
    rw [← hstates] at hsource htarget
    exact (hends hsource htarget).2 hc

end Renumbers

end TouchAutomata
