import TouchAutomata.Automaton.Path
import TouchAutomata.Automaton.Lookup

/-!
# The runs of an automaton

A run tells through which states a word is read, one state for each label. A path is a run of
which only the last state is looked at (`path_iff_run`). Where each label that is read leads to
one state, the run is the only one (`Run.unique`).
-/

set_option autoImplicit false

namespace TouchAutomata.Automaton

variable {a : Automaton} {s t : StateId} {l : String} {v w : List String}
variable {ts us : List StateId}

/-- A word is read from a state through other states, one for each label. -/
inductive Run (a : Automaton) : StateId → List String → List StateId → Prop where
  | nil (s : StateId) : Run a s [] []
  | cons {e : Edge} {w : List String} {ts : List StateId} (mem : e ∈ a.edges)
      (rest : Run a e.target w ts) : Run a e.source (e.label :: w) (e.target :: ts)

/-- A run takes an edge with the first label and goes on from its target. -/
theorem run_cons :
    a.Run s (l :: w) ts ↔
      ∃ e ∈ a.edges, e.source = s ∧ e.label = l ∧ ∃ us, ts = e.target :: us ∧
        a.Run e.target w us := by
  constructor
  · intro h
    cases h with
    | cons mem rest => exact ⟨_, mem, rfl, rfl, _, rfl, rest⟩
  · rintro ⟨e, mem, rfl, rfl, us, rfl, rest⟩
    exact .cons mem rest

/-- A path leads to the last state of a run. -/
theorem path_iff_run : a.Path s w t ↔ ∃ ts, a.Run s w ts ∧ ts.getLastD s = t := by
  induction w generalizing s with
  | nil =>
    rw [path_nil]
    constructor
    · rintro rfl
      exact ⟨[], .nil s, rfl⟩
    · rintro ⟨ts, hrun, rfl⟩
      cases hrun
      rfl
  | cons l w ih =>
    rw [path_cons]
    constructor
    · rintro ⟨e, he, rfl, rfl, hrest⟩
      obtain ⟨ts, hrun, rfl⟩ := ih.1 hrest
      exact ⟨e.target :: ts, .cons he hrun, List.getLastD_cons ..⟩
    · rintro ⟨ts, hrun, rfl⟩
      obtain ⟨e, he, hs, hl, us, rfl, hrest⟩ := run_cons.1 hrun
      exact ⟨e, he, hs, hl, ih.2 ⟨us, hrest, (List.getLastD_cons ..).symm⟩⟩

/-- The accepting states are those that no edge leaves. -/
theorem accepts_iff : a.accepts s = true ↔ a.hasState s = true ∧ ∀ e ∈ a.edges, e.source ≠ s := by
  simp [accepts, leaving]

/-- The labels are looked up among the edges that leave the state. -/
theorem next_of_hasState (h : a.hasState s = true) (l : String) :
    a.next s l = .ok (((a.leaving s).filter fun e => e.label = l).map Edge.target) := by
  rw [next, edgesFrom, if_pos h]
  rfl

/-- Edges with the same ends and the same label, no two of them twins, are one edge. -/
theorem map_target_eq_singleton {es : List Edge} (hne : es ≠ [])
    (hmem : ∀ d ∈ es, d.source = s ∧ d.label = l ∧ d.target = t)
    (hlone : es.Pairwise fun c d => ¬ c.Twin d) : es.map Edge.target = [t] := by
  match es with
  | [] => exact absurd rfl hne
  | [d] => simp [(hmem d (by simp)).2.2]
  | c :: d :: rest =>
    obtain ⟨hcs, hcl, hct⟩ := hmem c (by simp)
    obtain ⟨hds, hdl, hdt⟩ := hmem d (by simp)
    have hcd := (List.pairwise_cons.1 hlone).1 d (by simp)
    exact absurd ⟨hcs.trans hds.symm, hct.trans hdt.symm, hcl.trans hdl.symm⟩ hcd

/-- If the edges with a label that leave a state all end in one state, the label leads to this
state once. -/
theorem next_eq_singleton
    (h : ∀ r, (∃ e ∈ a.edges, e.source = s ∧ e.label = l ∧ e.target = r) ↔ r = t) :
    a.next s l = .ok [t] := by
  obtain ⟨e, he, hs, hl, ht⟩ := (h t).2 rfl
  have hstate : a.hasState s = true := hs ▸ hasState_source he
  have hmem : ∀ d, d ∈ (a.leaving s).filter (fun e => e.label = l) ↔
      d ∈ a.edges ∧ d.source = s ∧ d.label = l := by
    simp [and_assoc]
  rw [next_of_hasState hstate, map_target_eq_singleton]
  · exact List.ne_nil_of_mem ((hmem e).2 ⟨he, hs, hl⟩)
  · intro d hd
    obtain ⟨hd, hds, hdl⟩ := (hmem d).1 hd
    exact ⟨hds, hdl, (h _).1 ⟨d, hd, hds, hdl, rfl⟩⟩
  · exact (a.orderly.sublist (List.filter_sublist.trans List.filter_sublist)).imp fun h => h.2

/-- An edge leads to a state that its label leads to. -/
theorem target_mem_next {e : Edge} {ns : List StateId} (he : e ∈ a.edges)
    (h : a.next e.source e.label = .ok ns) : e.target ∈ ns := by
  have hstate : a.hasState e.source = true := hasState_source he
  obtain rfl := Except.ok.inj ((next_of_hasState hstate _).symm.trans h)
  exact List.mem_map.2 ⟨e, by simp [he], rfl⟩

/-- A run is the only one on its word if each label leads to one state wherever the word has been
read up to it. -/
theorem Run.unique (h : a.Run s w ts) (h' : a.Run s w us)
    (only : ∀ v l u, w = v ++ l :: u → ∀ r, a.Path s v r → ∃ t, a.next r l = .ok [t]) :
    us = ts := by
  induction h generalizing us with
  | nil =>
    cases h'
    rfl
  | @cons e w ts mem rest ih =>
    obtain ⟨d, hd, hs, hl, us, rfl, hrest⟩ := run_cons.1 h'
    obtain ⟨t, ht⟩ := only [] e.label w rfl e.source (.nil _)
    have he : e.target = t := List.mem_singleton.1 (target_mem_next mem ht)
    have hd : d.target = t := List.mem_singleton.1 (target_mem_next hd (hs ▸ hl ▸ ht))
    rw [hd, ← he] at hrest ⊢
    rw [ih hrest fun v l u hw r hr => only (e.label :: v) l u (by simp [hw]) r (.cons mem hr)]

end TouchAutomata.Automaton
