import TouchAutomata.Proofs.Determinization.HaltedExploration

/-!
# Edges that no word leads to

A set that an exploration takes holds states that some word leads to, so only the edges that leave
such states count. Edges from other states can be added, wherever they lead and whatever they are
labelled with: the exploration takes the same steps (`explore_addAll`) and the determinization has
the same outcome (`determinize_addAll`).
-/

set_option autoImplicit false

namespace TouchAutomata

namespace Automaton

variable {a : Automaton} {es : List Edge} {S : StateSet}

/-- Edges that leave states no word leads to do not change the groups of an attained set. -/
theorem labelGroups_addAll (hsources : ∀ e ∈ es, ¬ ∃ w, a.Reaches w e.source)
    (hS : a.Attains S) : (a.addAll es).labelGroups S = a.labelGroups S := by
  obtain ⟨-, w, hw⟩ := hS
  have hleaving : (a.addAll es).leavingAny S = a.leavingAny S := by
    unfold leavingAny
    apply List.flatMap_congr
    intro s hs
    apply leaving_addAll
    rintro e he rfl
    exact hsources e he ⟨w, (hw _).1 hs⟩
  rw [labelGroups, hleaving, labelGroups]

end Automaton

namespace Exploration

variable {a target : Automaton} {limit : StateLimit} {x : Exploration} {es : List Edge}
variable {taken : List (StateSet × StateId)} {done : List Task}

/-- From a stage of the exploration of `a`, the automaton with the edges added is explored in the
same way. -/
theorem explore_addAll {rounds : Nat} (hstart : a.hasState a.start = true)
    (hsources : ∀ e ∈ es, ¬ ∃ w, a.Reaches w e.source) (h : Stage a limit target taken done [] x) :
    explore (a.addAll es) limit rounds x = explore a limit rounds x := by
  induction rounds generalizing taken done x with
  | zero => rfl
  | succ rounds ih =>
    cases hp : x.pending with
    | nil => rw [explore_of_nil hp, explore_of_nil hp]
    | cons p rest =>
      have hmembers := h.hasState_of_mem_pending hstart (p := p) (by simp [hp])
      have hattained : a.Attains p.1 := h.attained p (by simp [h.found_eq, hp])
      have htake := h.take_groups hp
      rw [explore_of_cons hp, explore_of_cons hp, expand_of_hasState hmembers,
        expand_of_hasState fun s hs => Automaton.hasState_addAll (hmembers s hs),
        Automaton.labelGroups_addAll hsources hattained]
      cases hgroups : (a.labelGroups p.1).values.foldlM (follow limit p.2)
          { x with pending := rest } with
      | error halt => rfl
      | ok y => exact ih (htake.of_foldlM hgroups)

/-- More rounds than an exploration is given do not change how it ends. -/
theorem explore_begin_of_le {rounds : Nat} (hle : Nat.pow 2 a.stateCount ≤ rounds) :
    explore a limit rounds (begin a.start target) = ofAutomaton a limit target := by
  apply explore_of_le hle
  intro y hy
  have hfound := (ofAutomaton_finished hy).1.found_eq
  exact List.self_eq_append_right.1 hfound

/-- Edges that leave states no word leads to do not change the exploration. -/
theorem ofAutomaton_addAll (hstart : a.hasState a.start = true)
    (hsources : ∀ e ∈ es, ¬ ∃ w, a.Reaches w e.source) :
    ofAutomaton (a.addAll es) limit target = ofAutomaton a limit target := by
  -- the new edges may have new states, so the two explorations are given different rounds
  obtain ⟨rounds, hrounds, hrounds'⟩ : ∃ rounds, Nat.pow 2 a.stateCount ≤ rounds ∧
      Nat.pow 2 (a.addAll es).stateCount ≤ rounds :=
    ⟨_, Nat.le_max_left .., Nat.le_max_right ..⟩
  rw [← explore_begin_of_le hrounds, ← explore_begin_of_le hrounds', Automaton.start_addAll]
  exact explore_addAll hstart hsources .begun

end Exploration

namespace Automaton

variable {a : Automaton} {limit : StateLimit} {es : List Edge}

/-- If edges are added that leave states to which no word leads, the outcome of the determinization
stays the same: the fault, or the deterministic automaton and the report. So does what becomes of
an automaton that is built into. -/
theorem determinize_addAll (hstart : a.hasState a.start = true)
    (hsources : ∀ e ∈ es, ¬ ∃ w, a.Reaches w e.source) :
    (a.addAll es).determinize limit = a.determinize limit ∧
    ∀ target, (a.addAll es).determinizeInto target limit = a.determinizeInto target limit := by
  have hinto : ∀ target, (a.addAll es).determinizeInto target limit =
      a.determinizeInto target limit := by
    intro target
    unfold determinizeInto
    rw [isEmpty_of_hasState hstart, isEmpty_of_hasState (hasState_addAll hstart),
      Exploration.ofAutomaton_addAll hstart hsources]
  refine ⟨?_, hinto⟩
  rw [determinize, hinto, determinize]

/-- Edges beside `forked`: one leads into it under a label that it has, one is a cycle. -/
def detached : List Edge :=
  [⟨8, 2, ⟨"D1", [], .ofList [9]⟩⟩, ⟨8, 9, ⟨"U1", [], ∅⟩⟩, ⟨9, 9, ⟨"D1", [], ∅⟩⟩]

/-- The edges of `detached` change neither the deterministic automaton of `forked` nor what is laid
up to a limit. -/
theorem determinize_addAll_forked :
    forked.hasState forked.start = true ∧
    (∀ e ∈ detached, ¬ ∃ w, forked.Reaches w e.source) ∧
    (forked.addAll detached).determinize (some defaultStateLimit) =
      .ok (forkedMerged, forkedReport) ∧
    ∀ target, (forked.addAll detached).determinizeInto target (some 3) =
      forked.determinizeInto target (some 3) := by
  have hstart : forked.hasState forked.start = true := by decide +kernel
  have hmissing : ∀ e ∈ detached, forked.hasState e.source = false := by decide +kernel
  have hsources : ∀ e ∈ detached, ¬ ∃ w, forked.Reaches w e.source := by
    rintro e he ⟨w, hw⟩
    have hstate := hw.hasState hstart
    rw [hmissing e he] at hstate
    exact Bool.false_ne_true hstate
  refine ⟨hstart, hsources, ?_, (determinize_addAll hstart hsources).2⟩
  rw [(determinize_addAll hstart hsources).1]
  exact determinize_forked

end Automaton

end TouchAutomata
