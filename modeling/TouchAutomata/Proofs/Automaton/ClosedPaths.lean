import TouchAutomata.Proofs.Automaton.Runs
import Mathlib.Data.List.Perm.Subperm

/-!
# Paths that come back

A state that leads back to itself can be gone through again and again. A run that is longer than
there are states goes through some state twice, and this state leads back to itself
(`Run.exists_leads_self`). So an automaton reads words of any length exactly when one of the states
that words lead to does so (`exists_leads_self_iff`).
-/

set_option autoImplicit false

namespace TouchAutomata.Automaton

variable {a : Automaton} {r s t : StateId} {w : List String} {ts : List StateId}

/-- A word that is not empty leads from one state to another. -/
def Leads (a : Automaton) (s t : StateId) : Prop := ∃ w, w ≠ [] ∧ a.Path s w t

/-- An edge leads from its source to its target. -/
theorem leads_of_edge {e : Edge} (he : e ∈ a.edges) : a.Leads e.source e.target :=
  ⟨[e.label], List.cons_ne_nil _ _, .cons he (.nil _)⟩

/-- What leads to a state leads on to where that state leads. -/
theorem Leads.trans (hrs : a.Leads r s) (hst : a.Leads s t) : a.Leads r t := by
  obtain ⟨v, hv, hpath⟩ := hrs
  obtain ⟨w, -, hpath'⟩ := hst
  exact ⟨v ++ w, by simp [hv], path_append.2 ⟨s, hpath, hpath'⟩⟩

/-- Only states of the automaton lead anywhere. -/
theorem Leads.source_mem_states (h : a.Leads s t) : s ∈ a.states := by
  obtain ⟨w, hw, hpath⟩ := h
  cases hpath with
  | nil => exact absurd rfl hw
  | cons mem _ => exact hasState_iff.1 (hasState_source mem)

/-! ## Runs through one state twice -/

/-- A run passes one state for each label. -/
theorem Run.length_eq (h : a.Run s w ts) : ts.length = w.length := by
  induction h with
  | nil => rfl
  | cons _ _ ih => rw [List.length_cons, List.length_cons, ih]

/-- A run passes states of the automaton only. -/
theorem Run.mem_states (h : a.Run s w ts) (ht : t ∈ ts) : t ∈ a.states := by
  induction h with
  | nil => exact absurd ht List.not_mem_nil
  | cons mem _ ih =>
    rcases List.mem_cons.1 ht with rfl | ht
    · exact hasState_iff.1 (hasState_target mem)
    · exact ih ht

/-- The beginning of a run leads to each state that it passes. -/
theorem Run.leads_of_mem (h : a.Run s w ts) (ht : t ∈ ts) : a.Leads s t := by
  induction h with
  | nil => exact absurd ht List.not_mem_nil
  | cons mem _ ih =>
    rcases List.mem_cons.1 ht with rfl | ht
    · exact leads_of_edge mem
    · exact (leads_of_edge mem).trans (ih ht)

/-- A state that is passed twice leads back to itself. -/
theorem Run.exists_leads_self_of_not_nodup (h : a.Run s w ts) (twice : ¬ ts.Nodup) :
    ∃ t ∈ ts, a.Leads t t := by
  induction h with
  | nil => exact absurd List.nodup_nil twice
  | @cons e w ts mem rest ih =>
    by_cases hback : e.target ∈ ts
    · exact ⟨_, List.mem_cons_self, rest.leads_of_mem hback⟩
    · obtain ⟨t, ht, hleads⟩ := ih fun hnodup => twice (List.nodup_cons.2 ⟨hback, hnodup⟩)
      exact ⟨t, List.mem_cons_of_mem _ ht, hleads⟩

/-- A run on a word with more labels than there are states goes through a state that leads back to
itself. -/
theorem Run.exists_leads_self (h : a.Run s w ts) (long : a.stateCount < w.length) :
    ∃ t ∈ ts, a.Leads t t := by
  apply h.exists_leads_self_of_not_nodup
  intro hnodup
  have hle : ts.length ≤ a.stateCount := (hnodup.subperm fun _ => h.mem_states).length_le
  rw [h.length_eq] at hle
  omega

/-! ## Words of any length -/

/-- A state that words lead to leads back to itself exactly when words of any length can be
read. -/
theorem exists_leads_self_iff :
    (∃ s, (∃ v, a.Reaches v s) ∧ a.Leads s s) ↔
      ∀ n, ∃ w, n ≤ w.length ∧ ∃ s, a.Reaches w s := by
  constructor
  · rintro ⟨s, hreached, u, hu, hback⟩ n
    have hlong : ∃ w, n ≤ w.length ∧ a.Reaches w s := by
      induction n with
      | zero =>
        obtain ⟨v, hv⟩ := hreached
        exact ⟨v, Nat.zero_le _, hv⟩
      | succ n ih =>
        obtain ⟨w, hw, hpath⟩ := ih
        have hpos := List.length_pos_iff.2 hu
        refine ⟨w ++ u, ?_, path_append.2 ⟨s, hpath, hback⟩⟩
        rw [List.length_append]
        omega
    obtain ⟨w, hw, hpath⟩ := hlong
    exact ⟨w, hw, s, hpath⟩
  · intro hall
    obtain ⟨w, hw, s, hpath⟩ := hall (a.stateCount + 1)
    obtain ⟨ts, hrun, -⟩ := path_iff_run.1 hpath
    obtain ⟨t, ht, hback⟩ := hrun.exists_leads_self hw
    obtain ⟨v, -, hv⟩ := hrun.leads_of_mem ht
    exact ⟨t, ⟨v, hv⟩, hback⟩

end TouchAutomata.Automaton
