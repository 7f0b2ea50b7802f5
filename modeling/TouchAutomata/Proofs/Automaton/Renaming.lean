import TouchAutomata.Proofs.Automaton.AttainedSets
import TouchAutomata.Proofs.Ordered.Image

/-!
# Other names for the states

The outline of an edge is what can be told of it but for the text of its touch: its ends, its
label and its triggers. Two automata are the same up to the names of their states if a function
that tells the states apart takes the outlines of one to those of the other (`Renames`). Then it
takes the edges that leave a set of states to those that leave its image
(`Renames.exists_leaving_iff`).
-/

set_option autoImplicit false

namespace TouchAutomata

/-- The ends of an edge, its label and its triggers. -/
def Edge.outline (e : Edge) : StateId × StateId × String × Triggers :=
  (e.source, e.target, e.label, e.touch.triggers)

/-- The outlines of the edges, in order. -/
def Automaton.outlines (a : Automaton) : List (StateId × StateId × String × Triggers) :=
  a.edges.map Edge.outline

/-! ## Edges with the same outlines -/

namespace Edge

variable {d e : Edge} {l m : List Edge}

/-- Edges with the same outline have their places at the same point of lists with the same
outlines. -/
theorem map_outline_place (h : l.map outline = m.map outline) (hde : d.outline = e.outline) :
    (place d l).map outline = (place e m).map outline := by
  induction l generalizing m with
  | nil =>
    cases m with
    | nil => simpa [place] using hde
    | cons f m => simp at h
  | cons c l ih =>
    cases m with
    | nil => simp at h
    | cons f m =>
      obtain ⟨hcf, hrest⟩ := List.cons.inj h
      have hbefore : d.Before c ↔ e.Before f := by
        simp only [outline, Prod.mk.injEq] at hcf hde
        rw [Before, Before, hcf.1, hcf.2.1, hde.1, hde.2.1]
      simp only [place, hbefore]
      split
      · rw [List.map_cons, hde, h]
        rfl
      · rw [List.map_cons, List.map_cons, hcf, ih hrest]

/-- Whether an edge has a twin in a list can be told from the outlines. -/
theorem exists_twin_of_map_outline (h : l.map outline = m.map outline)
    (hde : d.outline = e.outline) (htwin : ∃ c ∈ l, c.Twin d) : ∃ c ∈ m, c.Twin e := by
  obtain ⟨c, hc, hcd⟩ := htwin
  have hmem : c.outline ∈ m.map outline := h ▸ List.mem_map_of_mem hc
  obtain ⟨f, hf, hfc⟩ := List.mem_map.1 hmem
  refine ⟨f, hf, ?_⟩
  simp only [outline, Prod.mk.injEq] at hfc hde
  exact ⟨hfc.1.trans (hcd.1.trans hde.1), hfc.2.1.trans (hcd.2.1.trans hde.2.1),
    hfc.2.2.1.trans (hcd.2.2.trans hde.2.2.1)⟩

end Edge

namespace Automaton

variable {a b : Automaton} {d e : Edge} {s t : StateId} {l : String} {i : Triggers}

/-- The outlines are those of the edges. -/
theorem mem_outlines : (s, t, l, i) ∈ a.outlines ↔
    ∃ e ∈ a.edges, e.source = s ∧ e.target = t ∧ e.label = l ∧ e.touch.triggers = i := by
  simp [outlines, Edge.outline]

/-- To add edges with the same outline keeps the outlines of two automata the same. -/
theorem outlines_add (h : a.outlines = b.outlines) (hde : d.outline = e.outline) :
    (a.add d).outlines = (b.add e).outlines := by
  have htwin : (∃ c ∈ a.edges, c.Twin d) ↔ ∃ c ∈ b.edges, c.Twin e :=
    ⟨Edge.exists_twin_of_map_outline h hde, Edge.exists_twin_of_map_outline h.symm hde.symm⟩
  rw [outlines, outlines, edges_add, edges_add]
  simp only [htwin]
  split
  · exact h
  · exact Edge.map_outline_place h hde

/-- Automata with the same outlines have the same states. -/
theorem states_eq_of_outlines (h : a.outlines = b.outlines) : a.states = b.states := by
  refine OrderedSet.ext_mem fun s => ?_
  have hmem : ∀ c : Automaton, s ∈ c.states ↔ ∃ o ∈ c.outlines, o.1 = s ∨ o.2.1 = s := by
    intro c
    simp [outlines, Edge.outline]
  rw [hmem, hmem, h]

/-- Automata with the same outlines pass the same tests for states. -/
theorem hasState_eq_of_outlines (h : a.outlines = b.outlines) : a.hasState = b.hasState := by
  funext s
  rw [Bool.eq_iff_iff, hasState_iff, hasState_iff, states_eq_of_outlines h]

/-- Automata with the same outlines have as many edges. -/
theorem transitionCount_eq_of_outlines (h : a.outlines = b.outlines) :
    a.transitionCount = b.transitionCount := by
  have hlength := congrArg List.length h
  rw [outlines, outlines, List.length_map, List.length_map] at hlength
  exact hlength

/-- Automata with the same outlines are empty together. -/
theorem isEmpty_eq_of_outlines (h : a.outlines = b.outlines) : a.isEmpty = b.isEmpty := by
  have hlength := transitionCount_eq_of_outlines h
  rw [Bool.eq_iff_iff, isEmpty, isEmpty, List.isEmpty_iff_length_eq_zero,
    List.isEmpty_iff_length_eq_zero, ← transitionCount, ← transitionCount, hlength]

end Automaton

/-! ## Renamed states -/

/-- A function tells the states of the first automaton apart and takes them to those of the
second. Each edge goes to one with the same label and the same triggers, and the second automaton
has no other edges. -/
structure Renames (f : StateId → StateId) (a b : Automaton) : Prop where
  start_eq : f a.start = b.start
  apart : ∀ s t, a.hasState s = true → a.hasState t = true → f s = f t → s = t
  edge_iff : ∀ s t, a.hasState s = true → a.hasState t = true → ∀ l i,
    (s, t, l, i) ∈ a.outlines ↔ (f s, f t, l, i) ∈ b.outlines
  no_others : ∀ s t l i, (s, t, l, i) ∈ b.outlines →
    (∃ s', a.hasState s' = true ∧ f s' = s) ∧ ∃ t', a.hasState t' = true ∧ f t' = t

namespace Renames

variable {f : StateId → StateId} {a b : Automaton} {S : StateSet} {l : String}

open Automaton in
/-- It is enough to look at the states and the edges that there are. -/
theorem of_edges (start_eq : f a.start = b.start)
    (apart : (a.states.toList.map f).Nodup)
    (forth : ∀ e ∈ a.edges, (f e.source, f e.target, e.label, e.touch.triggers) ∈ b.outlines)
    (back : ∀ e' ∈ b.edges, ∃ e ∈ a.edges,
      (f e.source, f e.target, e.label, e.touch.triggers) = e'.outline) : Renames f a b := by
  have hinj : ∀ s t, a.hasState s = true → a.hasState t = true → f s = f t → s = t :=
    fun _ _ hs ht heq => List.inj_on_of_nodup_map apart (hasState_iff.1 hs) (hasState_iff.1 ht) heq
  refine ⟨start_eq, hinj, fun s t hs ht l i => ⟨?_, ?_⟩, fun s t l i hmem => ?_⟩
  · intro hmem
    obtain ⟨e, he, rfl, rfl, rfl, rfl⟩ := mem_outlines.1 hmem
    exact forth e he
  · intro hmem
    obtain ⟨e', he', heq⟩ := List.mem_map.1 hmem
    obtain ⟨e, he, hout⟩ := back e' he'
    rw [heq] at hout
    simp only [Prod.mk.injEq] at hout
    obtain ⟨hs', ht', hl, hi⟩ := hout
    exact mem_outlines.2 ⟨e, he, hinj _ _ (hasState_source he) hs hs',
      hinj _ _ (hasState_target he) ht ht', hl, hi⟩
  · obtain ⟨e', he', heq⟩ := List.mem_map.1 hmem
    obtain ⟨e, he, hout⟩ := back e' he'
    rw [heq] at hout
    simp only [Prod.mk.injEq] at hout
    exact ⟨⟨e.source, hasState_source he, hout.1⟩, e.target, hasState_target he, hout.2.1⟩

open Automaton in
/-- Each edge goes to an edge between the new names, with the same label and the same triggers. -/
theorem exists_edge (h : Renames f a b) {e : Edge} (he : e ∈ a.edges) :
    ∃ e' ∈ b.edges, e'.source = f e.source ∧ e'.target = f e.target ∧ e'.label = e.label ∧
      e'.touch.triggers = e.touch.triggers := by
  have hmem := mem_outlines.2 ⟨e, he, rfl, rfl, rfl, rfl⟩
  have hiff := h.edge_iff _ _ (hasState_source he) (hasState_target he) e.label e.touch.triggers
  exact mem_outlines.1 (hiff.1 hmem)

open Automaton in
/-- Each edge between new names comes from an edge with the same label and the same triggers. -/
theorem exists_edge_of_mem (h : Renames f a b) {e' : Edge} (he' : e' ∈ b.edges) :
    ∃ e ∈ a.edges, f e.source = e'.source ∧ f e.target = e'.target ∧ e.label = e'.label ∧
      e.touch.triggers = e'.touch.triggers := by
  have hmem := mem_outlines.2 ⟨e', he', rfl, rfl, rfl, rfl⟩
  obtain ⟨⟨s, hs, hfs⟩, t, ht, hft⟩ := h.no_others _ _ _ _ hmem
  rw [← hfs, ← hft] at hmem
  obtain ⟨e, he, rfl, rfl, hlabel, htriggers⟩ :=
    mem_outlines.1 ((h.edge_iff s t hs ht _ _).2 hmem)
  exact ⟨e, he, hfs, hft, hlabel, htriggers⟩

/-- What can be said of the edges that leave a set of states, by their targets, labels and
triggers, can be said of those that leave its image. -/
theorem exists_leaving_iff (h : Renames f a b) (hS : ∀ s ∈ S, a.hasState s = true)
    (p : StateId → String → Triggers → Prop) :
    (∃ e ∈ b.edges, e.source ∈ S.image f ∧ p e.target e.label e.touch.triggers) ↔
      ∃ e ∈ a.edges, e.source ∈ S ∧ p (f e.target) e.label e.touch.triggers := by
  constructor
  · rintro ⟨e', he', hsource, hp⟩
    obtain ⟨e, he, hs, ht, hl, hi⟩ := h.exists_edge_of_mem he'
    obtain ⟨s, hsS, hfs⟩ := OrderedSet.mem_image.1 hsource
    have hstate := Automaton.hasState_source he
    have heq : s = e.source := h.apart _ _ (hS s hsS) hstate (hfs.trans hs.symm)
    rw [← ht, ← hl, ← hi] at hp
    exact ⟨e, he, heq ▸ hsS, hp⟩
  · rintro ⟨e, he, hsource, hp⟩
    obtain ⟨e', he', hs, ht, hl, hi⟩ := h.exists_edge he
    rw [← ht, ← hl, ← hi] at hp
    exact ⟨e', he', OrderedSet.mem_image.2 ⟨e.source, hsource, hs.symm⟩, hp⟩

/-- The states after a label are renamed with the set that the label leaves. -/
theorem afterLabel_image (h : Renames f a b) (hS : ∀ s ∈ S, a.hasState s = true) :
    b.afterLabel (S.image f) l = (a.afterLabel S l).image f := by
  refine OrderedSet.ext_mem fun t => ?_
  rw [Automaton.mem_afterLabel, h.exists_leaving_iff hS fun r k _ => k = l ∧ r = t,
    OrderedSet.mem_image]
  simp only [Automaton.mem_afterLabel]
  constructor
  · rintro ⟨e, he, hs, hl, ht⟩
    exact ⟨e.target, ⟨e, he, hs, hl, rfl⟩, ht⟩
  · rintro ⟨_, ⟨e, he, hs, hl, rfl⟩, ht⟩
    exact ⟨e, he, hs, hl, ht⟩

/-- The same labels leave a set and its image. -/
theorem labelsLeaving_image (h : Renames f a b) (hS : ∀ s ∈ S, a.hasState s = true) :
    b.labelsLeaving (S.image f) = a.labelsLeaving S := by
  refine OrderedSet.ext_mem fun l => ?_
  rw [Automaton.mem_labelsLeaving, Automaton.mem_labelsLeaving]
  exact h.exists_leaving_iff hS fun _ k _ => k = l

/-- The states of the second automaton are the new names of those of the first. -/
theorem states_image (h : Renames f a b) : b.states = a.states.image f := by
  refine OrderedSet.ext_mem fun t => ?_
  rw [OrderedSet.mem_image]
  simp only [Automaton.mem_states]
  constructor
  · rintro ⟨e', he', hend⟩
    obtain ⟨e, he, hs, ht, -⟩ := h.exists_edge_of_mem he'
    rcases hend with rfl | rfl
    · exact ⟨e.source, ⟨e, he, .inl rfl⟩, hs⟩
    · exact ⟨e.target, ⟨e, he, .inr rfl⟩, ht⟩
  · rintro ⟨s, ⟨e, he, hend⟩, rfl⟩
    obtain ⟨e', he', hs, ht, -⟩ := h.exists_edge he
    rcases hend with rfl | rfl
    · exact ⟨e', he', .inl hs⟩
    · exact ⟨e', he', .inr ht⟩

/-- New names do not change how many states there are. -/
theorem stateCount_eq (h : Renames f a b) : b.stateCount = a.stateCount := by
  rw [Automaton.stateCount, h.states_image]
  refine OrderedSet.size_image fun s hs t ht => ?_
  exact h.apart s t (Automaton.hasState_iff.2 hs) (Automaton.hasState_iff.2 ht)

/-- The new name of a state is a state. -/
theorem hasState_image (h : Renames f a b) {s : StateId} (hs : a.hasState s = true) :
    b.hasState (f s) = true := by
  rw [Automaton.hasState_iff, h.states_image, OrderedSet.mem_image]
  exact ⟨s, Automaton.hasState_iff.1 hs, rfl⟩

end Renames

end TouchAutomata
