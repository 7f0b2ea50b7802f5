import TouchAutomata.Inspection.Cycle
import TouchAutomata.Proofs.Automaton.ClosedPaths

/-!
# What the search for cycles decides

The states that are settled lead only to states settled before them (`Settled`), so none of them
leads back to itself. If a state cannot be settled, the search has come back to a state of its
trail, each of which leads to the present one; the trail cannot grow too long instead, since it
repeats no state. So an inspection reports a cycle exactly when a word leads from some state back
to it (`hasCycle_iff`).
-/

set_option autoImplicit false

namespace TouchAutomata.Automaton

variable {a : Automaton} {s t : StateId} {w : List String} {e : Edge} {depth : Nat}
variable {trail settled settled' ts : List StateId}

/-- The targets of a state are those of the edges that leave it. -/
theorem mem_targets : t ∈ a.targets s ↔ ∃ e ∈ a.edges, e.source = s ∧ e.target = t := by
  simp [targets, and_assoc]

/-- A state leads to its targets. -/
theorem leads_of_mem_targets (h : t ∈ a.targets s) : a.Leads s t := by
  obtain ⟨e, he, rfl, rfl⟩ := mem_targets.1 h
  exact leads_of_edge he

/-! ## Settled states -/

/-- Each state of a list leads along its edges to states behind it only. -/
inductive Settled (a : Automaton) : List StateId → Prop where
  | nil : Settled a []
  | cons {s : StateId} {l : List StateId} (targets : ∀ t ∈ a.targets s, t ∈ l)
      (rest : Settled a l) : Settled a (s :: l)

/-- Edges lead from settled states to settled states. -/
theorem Settled.target_mem (h : a.Settled settled) (he : e ∈ a.edges)
    (hs : e.source ∈ settled) : e.target ∈ settled := by
  induction h with
  | nil => exact absurd hs List.not_mem_nil
  | cons targets _ ih =>
    rcases List.mem_cons.1 hs with hs | hs
    · exact List.mem_cons_of_mem _ (targets _ (mem_targets.2 ⟨e, he, hs, rfl⟩))
    · exact List.mem_cons_of_mem _ (ih hs)

/-- A settled state does not lead back to itself. -/
theorem Settled.not_leads (h : a.Settled settled) (hs : s ∈ settled) : ¬ a.Leads s s := by
  induction h with
  | nil => exact absurd hs List.not_mem_nil
  | @cons r l targets rest ih =>
    rcases List.mem_cons.1 hs with rfl | hs
    · rintro ⟨w, hw, hpath⟩
      cases hpath with
      | nil => exact hw rfl
      | @cons e w _ mem hrest =>
        -- what is behind the state does not lead to it, unless it is there a second time
        have htarget := targets _ (mem_targets.2 ⟨e, mem, rfl, rfl⟩)
        have hback := hrest.invariant (fun _ => rest.target_mem) htarget
        exact ih hback ⟨e.label :: w, hw, .cons mem hrest⟩
    · exact ih hs

/-- What settling some states, one after the other, makes of a list of settled states. -/
structure Settles (a : Automaton) (ts settled settled' : List StateId) : Prop where
  order : a.Settled settled'
  keeps : ∀ s ∈ settled, s ∈ settled'
  all : ∀ t ∈ ts, t ∈ settled'

/-- If each state can be settled after any others, several are settled one after the other. -/
theorem settles_of_foldlM {f : List StateId → StateId → Option (List StateId)}
    (step : ∀ l s l', a.Settled l → f l s = some l' → a.Settles [s] l l')
    (hsettled : a.Settled settled) (h : ts.foldlM f settled = some settled') :
    a.Settles ts settled settled' := by
  induction ts generalizing settled with
  | nil =>
    obtain rfl := Option.some.inj h
    exact ⟨hsettled, fun _ hs => hs, by simp⟩
  | cons t ts ih =>
    rw [List.foldlM_cons] at h
    obtain ⟨l, hl, hrest⟩ := Option.bind_eq_some_iff.1 h
    have hone := step _ _ _ hsettled hl
    have hmore := ih hone.order hrest
    refine ⟨hmore.order, fun s hs => hmore.keeps s (hone.keeps s hs), ?_⟩
    intro s hs
    rcases List.mem_cons.1 hs with rfl | hs
    · exact hmore.keeps s (hone.all s (List.mem_singleton_self s))
    · exact hmore.all s hs

/-- A state is settled after the states that its edges lead to. -/
theorem settles_of_settle (hsettled : a.Settled settled)
    (h : a.settle depth trail settled s = some settled') : a.Settles [s] settled settled' := by
  induction depth generalizing trail settled s settled' with
  | zero => cases h
  | succ depth ih =>
    rw [settle] at h
    split_ifs at h with hmem htrail
    · obtain rfl := Option.some.inj h
      exact ⟨hsettled, fun _ hs => hs, by simpa using hmem⟩
    · obtain ⟨l, hl, rfl⟩ := Option.map_eq_some_iff.1 h
      have htargets := settles_of_foldlM (fun _ _ _ => ih) hsettled hl
      exact ⟨.cons htargets.all htargets.order,
        fun t ht => List.mem_cons_of_mem _ (htargets.keeps t ht), by simp⟩

/-! ## States that cannot be settled -/

/-- A fold that fails does so at one entry. -/
theorem exists_eq_none_of_foldlM {α β : Type} {f : β → α → Option β} {l : List α} {b : β}
    (h : l.foldlM f b = none) : ∃ x ∈ l, ∃ c, f c x = none := by
  induction l generalizing b with
  | nil => cases h
  | cons x l ih =>
    rw [List.foldlM_cons] at h
    cases hx : f b x with
    | none => exact ⟨x, List.mem_cons_self, b, hx⟩
    | some c =>
      rw [hx] at h
      obtain ⟨y, hy, hnone⟩ := ih h
      exact ⟨y, List.mem_cons_of_mem _ hy, hnone⟩

/-- If a state cannot be settled though the trail has room for all states, some state leads back to
itself. -/
theorem exists_leads_of_settle (h : a.settle depth trail settled s = none) (hs : s ∈ a.states)
    (htrail : ∀ t ∈ trail, t ∈ a.states ∧ a.Leads t s) (distinct : trail.Nodup)
    (room : a.stateCount < depth + trail.length) : ∃ t, a.Leads t t := by
  induction depth generalizing trail settled s with
  | zero =>
    have hsub : trail ⊆ a.states.toList := fun t ht => (htrail t ht).1
    have hlength : trail.length ≤ a.stateCount := (distinct.subperm hsub).length_le
    omega
  | succ depth ih =>
    rw [settle] at h
    split_ifs at h with hmem hback
    · exact ⟨s, (htrail s hback).2⟩
    · obtain ⟨t, ht, l, hl⟩ := exists_eq_none_of_foldlM (Option.map_eq_none_iff.1 h)
      obtain ⟨e, he, -, rfl⟩ := mem_targets.1 ht
      have hstep := leads_of_mem_targets ht
      refine ih hl (hasState_iff.1 (hasState_target he)) ?_ (List.nodup_cons.2 ⟨hback, distinct⟩) ?_
      · intro r hr
        rcases List.mem_cons.1 hr with rfl | hr
        · exact ⟨hs, hstep⟩
        · exact ⟨(htrail r hr).1, (htrail r hr).2.trans hstep⟩
      · rw [List.length_cons]
        omega

/-- There is a cycle exactly when a word that is not empty leads from some state back to it. -/
theorem hasCycle_iff : a.hasCycle = true ↔ ∃ s, a.Leads s s := by
  rw [hasCycle, Option.isNone_iff_eq_none]
  constructor
  · intro h
    obtain ⟨s, hs, l, hl⟩ := exists_eq_none_of_foldlM h
    exact exists_leads_of_settle hl hs (by simp) List.nodup_nil (by simp)
  · rintro ⟨s, hleads⟩
    cases hall : a.settleAll with
    | none => rfl
    | some l =>
      have hsettles := settles_of_foldlM (fun _ _ _ => settles_of_settle) .nil hall
      exact absurd hleads (hsettles.order.not_leads (hsettles.all s hleads.source_mem_states))

end TouchAutomata.Automaton
