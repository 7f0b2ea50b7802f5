import TouchAutomata.Proofs.Automaton.AttainedSets
import TouchAutomata.Proofs.Automaton.ClosedPaths

/-!
# Paths that do not come back

If no state leads back to itself, a run goes through no state twice, so a path has fewer edges than
there are states (`Acyclic.length_lt`). A path that ends in a state which does not accept can be
drawn out by an edge. This cannot go on for ever, so a path leads from each state to one that
accepts (`Acyclic.exists_path_accepts`).
-/

set_option autoImplicit false

namespace TouchAutomata.Automaton

variable {a : Automaton} {s t : StateId} {w : List String} {ts : List StateId}

/-- No state leads back to itself. -/
def Acyclic (a : Automaton) : Prop := ∀ s, ¬ a.Leads s s

/-! ## How long paths are -/

/-- Where nothing leads back, no state is passed twice. -/
theorem Acyclic.nodup_run (acyclic : a.Acyclic) (h : a.Run s w ts) : (s :: ts).Nodup := by
  refine List.nodup_cons.2 ⟨fun hback => acyclic s (h.leads_of_mem hback), ?_⟩
  by_contra twice
  obtain ⟨t, -, hleads⟩ := h.exists_leads_self_of_not_nodup twice
  exact acyclic t hleads

/-- Where nothing leads back, a word that can be read is shorter than the number of states. -/
theorem Acyclic.length_lt (acyclic : a.Acyclic) (hs : s ∈ a.states) (h : a.Path s w t) :
    w.length < a.stateCount := by
  obtain ⟨ts, hrun, -⟩ := path_iff_run.1 h
  have hsub : s :: ts ⊆ a.states.toList := List.cons_subset.2 ⟨hs, fun _ => hrun.mem_states⟩
  have hle : (s :: ts).length ≤ a.stateCount := ((acyclic.nodup_run hrun).subperm hsub).length_le
  rw [List.length_cons, hrun.length_eq] at hle
  omega

/-! ## Where paths end -/

/-- An edge leaves a state that does not accept. -/
theorem exists_edge_of_not_accepts (hs : s ∈ a.states) (h : a.accepts s ≠ true) :
    ∃ e ∈ a.edges, e.source = s := by
  by_contra hnone
  push Not at hnone
  exact h (accepts_iff.2 ⟨hasState_iff.2 hs, hnone⟩)

/-- While they lead to no accepting state, paths from a state can be drawn out to any length. -/
theorem exists_path_length_eq (hs : s ∈ a.states)
    (hnone : ∀ w t, a.Path s w t → a.accepts t ≠ true) (n : Nat) :
    ∃ w t, w.length = n ∧ a.Path s w t := by
  induction n with
  | zero => exact ⟨[], s, rfl, .nil s⟩
  | succ n ih =>
    obtain ⟨w, t, hlength, hpath⟩ := ih
    have ht : t ∈ a.states := hasState_iff.1 (hpath.hasState (hasState_iff.2 hs))
    obtain ⟨e, he, rfl⟩ := exists_edge_of_not_accepts ht (hnone w t hpath)
    refine ⟨w ++ [e.label], e.target, by simp [hlength], ?_⟩
    exact path_append.2 ⟨e.source, hpath, .cons he (.nil _)⟩

/-- Where nothing leads back, each state leads to one that accepts: an edge leaves any other state,
and words cannot grow beyond the number of states. -/
theorem Acyclic.exists_path_accepts (acyclic : a.Acyclic) (hs : s ∈ a.states) :
    ∃ w t, a.Path s w t ∧ a.accepts t = true := by
  by_contra hnone
  push Not at hnone
  obtain ⟨w, t, hlength, hpath⟩ := exists_path_length_eq hs hnone a.stateCount
  have hlt : w.length < a.stateCount := acyclic.length_lt hs hpath
  omega

end TouchAutomata.Automaton
