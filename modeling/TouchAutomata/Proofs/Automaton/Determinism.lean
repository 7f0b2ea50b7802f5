import TouchAutomata.Inspection.Basic
import TouchAutomata.Proofs.Automaton.AttainedSets
import TouchAutomata.Proofs.Automaton.Runs
import Mathlib.Data.List.Induction

/-!
# Deterministic automata

An inspection goes through the edges once and notes where they lead; it calls an automaton
deterministic exactly when no label leads from a state to two states (`isDeterministic_iff`). The
same is seen by looking up every label at every state (`inspect_isDeterministic_iff`). A word then
leads to one state at most (`Deterministic.path_unique`), so each attained set has one member, and
there are as many of them as states that words lead to (`Deterministic.attainedCount_eq`).
-/

set_option autoImplicit false

namespace TouchAutomata

namespace Edge

variable {e : Edge} {es : List Edge}

/-- Edges with the same source and the same label have the same target. -/
def Functional (l : List Edge) : Prop :=
  ∀ d ∈ l, ∀ e ∈ l, d.source = e.source → d.label = e.label → d.target = e.target

/-- One edge more keeps targets unique exactly when it agrees with the edges before it. -/
theorem functional_concat : Functional (es ++ [e]) ↔
    Functional es ∧ ∀ d ∈ es, d.source = e.source → d.label = e.label → d.target = e.target := by
  constructor
  · intro h
    constructor
    · intro c hc d hd
      exact h c (List.mem_append_left _ hc) d (List.mem_append_left _ hd)
    · intro d hd
      exact h d (List.mem_append_left _ hd) e (by simp)
  · rintro ⟨hes, hlast⟩ c hc d hd
    rw [List.mem_append, List.mem_singleton] at hc hd
    rcases hc with hc | rfl
    · rcases hd with hd | rfl
      · exact hes c hc d hd
      · exact hlast c hc
    · rcases hd with hd | rfl
      · intro hsource hlabel
        exact (hlast d hd hsource.symm hlabel.symm).symm
      · exact fun _ _ => rfl

end Edge

namespace Automaton

variable {a : Automaton} {e : Edge} {es : List Edge} {r s t : StateId} {w : List String}
variable {S : StateSet} {noted : List ((StateId × String) × StateId)}

/-! ## The inspection -/

/-- What is noted is where the labels of some edges lead from their sources. -/
def Notes (noted : List ((StateId × String) × StateId)) (es : List Edge) : Prop :=
  ∀ s l t, noted.lookup (s, l) = some t ↔ ∃ e ∈ es, e.source = s ∧ e.label = l ∧ e.target = t

/-- A look-up in the notes finds no other target exactly when no earlier edge with this source and
label has one. -/
theorem Notes.all_lookup_iff (h : Notes noted es) :
    (noted.lookup (e.source, e.label)).all (· = e.target) = true ↔
      ∀ d ∈ es, d.source = e.source → d.label = e.label → d.target = e.target := by
  rw [Option.all_eq_true]
  constructor
  · intro hall d hd hsource hlabel
    exact of_decide_eq_true (hall d.target ((h _ _ _).2 ⟨d, hd, hsource, hlabel, rfl⟩))
  · intro hsame t ht
    obtain ⟨d, hd, hsource, hlabel, rfl⟩ := (h _ _ _).1 ht
    exact decide_eq_true (hsame d hd hsource hlabel)

/-- To note the target of an edge that agrees with the earlier ones keeps the notes complete. -/
theorem Notes.concat (h : Notes noted es)
    (same : ∀ d ∈ es, d.source = e.source → d.label = e.label → d.target = e.target) :
    Notes (((e.source, e.label), e.target) :: noted) (es ++ [e]) := by
  intro s l t
  rw [List.lookup_cons]
  by_cases hkey : (s, l) = (e.source, e.label)
  · obtain ⟨rfl, rfl⟩ := Prod.mk.inj hkey
    simp only [beq_self_eq_true, Option.some.injEq, List.mem_append, List.mem_singleton]
    constructor
    · rintro rfl
      exact ⟨e, .inr rfl, rfl, rfl, rfl⟩
    · rintro ⟨d, hd | rfl, hsource, hlabel, rfl⟩
      · exact (same d hd hsource hlabel).symm
      · rfl
  · simp only [beq_eq_false_iff_ne.2 hkey, h s l t, List.mem_append, List.mem_singleton]
    grind

/-- The pass over edges fails if two of them contradict each other; else it has noted them all. -/
theorem foldlM_noteTarget (es : List Edge) :
    match es.foldlM noteTarget [] with
    | none => ¬ Edge.Functional es
    | some noted => Edge.Functional es ∧ Notes noted es := by
  induction es using List.reverseRecOn with
  | nil => simp [Edge.Functional, Notes]
  | append_singleton es e ih =>
    rw [List.foldlM_append, Edge.functional_concat]
    cases hnoted : es.foldlM noteTarget [] with
    | none =>
      rw [hnoted] at ih
      exact fun h => ih h.1
    | some noted =>
      rw [hnoted] at ih
      obtain ⟨hes, hnotes⟩ := ih
      simp only [Option.bind_eq_bind, Option.bind_some, List.foldlM_cons, List.foldlM_nil]
      unfold noteTarget
      split_ifs with hsame
      · rw [hnotes.all_lookup_iff] at hsame
        exact ⟨⟨hes, hsame⟩, hnotes.concat hsame⟩
      · rw [hnotes.all_lookup_iff] at hsame
        exact fun h => hsame h.2

/-- No label leads from a state to two states. -/
def Deterministic (a : Automaton) : Prop := Edge.Functional a.edges

/-- The pass over the edges ends well exactly when the automaton is deterministic. -/
theorem isDeterministic_iff : a.isDeterministic = true ↔ a.Deterministic := by
  have hpass := foldlM_noteTarget a.edges
  rw [isDeterministic, Deterministic]
  cases hnoted : a.edges.foldlM noteTarget [] with
  | none =>
    rw [hnoted] at hpass
    simpa using hpass
  | some noted =>
    rw [hnoted] at hpass
    simpa using hpass.1

/-! ## Edges of a deterministic automaton -/

/-- An automaton has no two twins. -/
theorem eq_of_twin {d : Edge} (hd : d ∈ a.edges) (he : e ∈ a.edges) (htwin : d.Twin e) :
    d = e := by
  have hnodup : (a.edges.map fun e => (e.source, e.target, e.label)).Nodup := by
    refine List.pairwise_map.2 (a.orderly.imp ?_)
    rintro c d ⟨-, hcd⟩ heq
    simp only [Prod.mk.injEq] at heq
    exact hcd heq
  apply List.inj_on_of_nodup_map hnodup hd he
  rw [htwin.1, htwin.2.1, htwin.2.2]

/-- A label leaves a state along one edge. -/
theorem Deterministic.edge_unique (h : a.Deterministic) {d : Edge} (hd : d ∈ a.edges)
    (he : e ∈ a.edges) (hsource : d.source = e.source) (hlabel : d.label = e.label) : d = e :=
  eq_of_twin hd he ⟨hsource, h d hd e he hsource hlabel, hlabel⟩

/-! ## Looking labels up -/

/-- To look up a label at a state gives one state at most. -/
theorem Deterministic.exists_next_eq (h : a.Deterministic) (hs : a.hasState s = true)
    (l : String) : ∃ ns, a.next s l = .ok ns ∧ ns.length ≤ 1 := by
  refine ⟨_, next_of_hasState hs l, ?_⟩
  cases hleaving : (a.leaving s).filter fun e => e.label = l with
  | nil => exact Nat.zero_le 1
  | cons e es =>
    have hmem : ∀ d ∈ e :: es, d ∈ a.edges ∧ d.source = s ∧ d.label = l := by
      rw [← hleaving]
      simp [and_assoc]
    obtain ⟨he, hsource, hlabel⟩ := hmem e List.mem_cons_self
    have hone : (e :: es).map Edge.target = [e.target] := by
      refine map_target_eq_singleton (s := s) (l := l) (List.cons_ne_nil _ _) (fun d hd => ?_) ?_
      · obtain ⟨hd, hds, hdl⟩ := hmem d hd
        exact ⟨hds, hdl, h d hd e he (hds.trans hsource.symm) (hdl.trans hlabel.symm)⟩
      · rw [← hleaving]
        exact (a.orderly.sublist (List.filter_sublist.trans List.filter_sublist)).imp And.right
    rw [hone]
    exact Nat.le_refl 1

/-- An inspection calls an automaton deterministic exactly when a label that is looked up at one of
its states always leads to one state at most. -/
theorem inspect_isDeterministic_iff (a : Automaton) :
    a.inspect.isDeterministic = true ↔
      ∀ s ∈ a.states, ∀ l, ∃ ns, a.next s l = .ok ns ∧ ns.length ≤ 1 := by
  apply isDeterministic_iff.trans
  constructor
  · intro h s hs l
    exact h.exists_next_eq (hasState_iff.2 hs) l
  · intro h d hd e he hsource hlabel
    have hs : d.source ∈ a.states := hasState_iff.1 (hasState_source hd)
    obtain ⟨ns, hns, hlength⟩ := h d.source hs d.label
    -- both targets are among the states that the label leads to, which are one at most
    have hdns : d.target ∈ ns := target_mem_next hd hns
    rw [hsource, hlabel] at hns
    have hens : e.target ∈ ns := target_mem_next he hns
    obtain ⟨t, ht⟩ : ∃ t, ns = [t] :=
      List.length_eq_one_iff.1 (Nat.le_antisymm hlength (List.length_pos_of_mem hdns))
    rw [ht, List.mem_singleton] at hdns hens
    rw [hdns, hens]

/-! ## Words in a deterministic automaton -/

/-- In a deterministic automaton a word leads from a state to one state at most. -/
theorem Deterministic.path_unique (h : a.Deterministic) (hs : a.Path r w s) (ht : a.Path r w t) :
    s = t := by
  induction hs with
  | nil => exact path_nil.1 ht
  | @cons e w s he _ ih =>
    obtain ⟨d, hd, hsource, hlabel, hrest⟩ := path_cons.1 ht
    obtain rfl := h.edge_unique hd he hsource hlabel
    exact ih hrest

/-- In a deterministic automaton the set that a word leads to has one member. -/
theorem Deterministic.reached_eq (h : a.Deterministic) (hs : a.Reaches w s) :
    a.reached w = {s} := by
  refine OrderedSet.ext_mem fun t => ?_
  rw [mem_reached, mem_singleton_state]
  constructor
  · exact fun ht => h.path_unique ht hs
  · rintro rfl
    exact hs

/-- The attained sets are those of one state that some word leads to. -/
theorem Deterministic.attains_iff (h : a.Deterministic) :
    a.Attains S ↔ ∃ s, (∃ w, a.Reaches w s) ∧ S = {s} := by
  rw [Automaton.attains_iff]
  constructor
  · rintro ⟨⟨s, hs⟩, w, rfl⟩
    have hs := mem_reached.1 hs
    exact ⟨s, ⟨w, hs⟩, h.reached_eq hs⟩
  · rintro ⟨s, ⟨w, hs⟩, rfl⟩
    exact ⟨⟨s, mem_singleton_state.2 rfl⟩, w, (h.reached_eq hs).symm⟩

/-- How many states words lead to. -/
noncomputable def reachableCount (a : Automaton) : Nat := {s | ∃ w, a.Reaches w s}.ncard

/-- Different states make different sets of one member. -/
theorem singleton_injective : Function.Injective fun s : StateId => ({s} : StateSet) := by
  intro s t hst
  have hs : s ∈ ({t} : StateSet) := by
    rw [← show ({s} : StateSet) = {t} from hst]
    exact mem_singleton_state.2 rfl
  exact mem_singleton_state.1 hs

/-- In a deterministic automaton there are as many attained sets as states that words lead to. -/
theorem Deterministic.attainedCount_eq (h : a.Deterministic) :
    a.attainedCount = a.reachableCount := by
  have himage : {S | a.Attains S} =
      (fun s : StateId => ({s} : StateSet)) '' {s | ∃ w, a.Reaches w s} := by
    ext S
    apply h.attains_iff.trans
    simp [Set.mem_image, eq_comm]
  rw [attainedCount, himage, Set.ncard_image_of_injective _ singleton_injective, reachableCount]

end Automaton

end TouchAutomata
