import TouchAutomata.Automaton.Path
import TouchAutomata.Determinization.LabelGroup
import Mathlib.Data.Set.Card

/-!
# The sets of states that words lead to

A word leads from a set of states to another one, label by label (`after`); its members are the
ends of the paths that spell the word (`mem_after`). The sets attained from the start state are
what the deterministic automaton is made of; `attainedCount` says how many there are.
-/

set_option autoImplicit false

namespace TouchAutomata.Automaton

variable {a : Automaton} {S : StateSet} {s t : StateId} {l : String} {v w : List String}

/-- The states at the end of the edges with a label that leave a set of states. -/
def afterLabel (a : Automaton) (S : StateSet) (l : String) : StateSet :=
  .ofList (((a.leavingAny S).filter fun e => e.label = l).map Edge.target)

/-- The states to which a word leads from a set of states. -/
def after (a : Automaton) (S : StateSet) (w : List String) : StateSet :=
  w.foldl a.afterLabel S

/-- The states to which a word leads from the start state. -/
def reached (a : Automaton) (w : List String) : StateSet := a.after {a.start} w

/-- The edges that leave one of several states are those that have one of them as their source. -/
@[simp] theorem mem_leavingAny {e : Edge} :
    e ∈ a.leavingAny S ↔ e ∈ a.edges ∧ e.source ∈ S := by
  simp only [leavingAny, List.mem_flatMap, mem_leaving, OrderedSet.mem_def]
  grind

/-- The states after a label are the targets of the edges with the label from the set. -/
@[simp] theorem mem_afterLabel :
    t ∈ a.afterLabel S l ↔ ∃ e ∈ a.edges, e.source ∈ S ∧ e.label = l ∧ e.target = t := by
  simp only [afterLabel, OrderedSet.mem_ofList, List.mem_map, List.mem_filter, mem_leavingAny,
    decide_eq_true_eq]
  grind

/-- The labels of the edges that leave a set of states, each once. -/
def labelsLeaving (a : Automaton) (S : StateSet) : OrderedSet String :=
  .ofList ((a.leavingAny S).map Edge.label)

/-- A label leaves a set if an edge with it does. -/
@[simp] theorem mem_labelsLeaving :
    l ∈ a.labelsLeaving S ↔ ∃ e ∈ a.edges, e.source ∈ S ∧ e.label = l := by
  simp [labelsLeaving, and_assoc]

/-- A label leaves a set exactly when there are states after it. -/
theorem mem_labelsLeaving_iff_afterLabel :
    l ∈ a.labelsLeaving S ↔ ∃ t, t ∈ a.afterLabel S l := by
  simp only [mem_labelsLeaving, mem_afterLabel]
  grind

/-- The empty word leads to the set itself. -/
@[simp] theorem after_nil : a.after S [] = S := rfl

/-- A word leads on from the states after its first label. -/
@[simp] theorem after_cons : a.after S (l :: w) = a.after (a.afterLabel S l) w := rfl

/-- What a word leads to from a set is what its paths from the members lead to. -/
theorem mem_after : t ∈ a.after S w ↔ ∃ s, s ∈ S ∧ a.Path s w t := by
  induction w generalizing S with
  | nil => simp
  | cons l w ih =>
    simp only [after_cons, ih, mem_afterLabel, path_cons]
    constructor
    · rintro ⟨_, ⟨e, he, hs, hl, rfl⟩, hw⟩
      exact ⟨e.source, hs, e, he, rfl, hl, hw⟩
    · rintro ⟨_, hs, e, he, rfl, hl, hw⟩
      exact ⟨e.target, ⟨e, he, hs, hl, rfl⟩, hw⟩

/-- The set of one state has this state as its only member. -/
@[simp] theorem mem_singleton_state : s ∈ ({t} : StateSet) ↔ s = t := by
  simp [OrderedSet.mem_def]

/-- The set that a word leads to has the states to which the word leads. -/
@[simp] theorem mem_reached : s ∈ a.reached w ↔ a.Reaches w s := by
  simp [reached, mem_after, Reaches]

/-- One label more leads from the states reached to those after the label. -/
theorem reached_concat : a.reached (w ++ [l]) = a.afterLabel (a.reached w) l := by
  simp [reached, after]

/-- A path ends in a state of the automaton if it begins in one. -/
theorem Path.hasState (h : a.Path s w t) (hs : a.hasState s = true) : a.hasState t = true := by
  apply h.invariant (P := fun s => a.hasState s = true) _ hs
  intro e he _
  exact hasState_target he

/-- The beginning of a path is a state if its end is one. -/
theorem Path.hasState_source (h : a.Path s w t) (ht : a.hasState t = true) :
    a.hasState s = true := by
  cases h with
  | nil => exact ht
  | cons mem _ => exact hasState_source mem

/-- A path along one edge or more ends in a state of the automaton. -/
theorem Path.hasState_of_ne_nil (h : a.Path s w t) (hw : w ≠ []) : a.hasState t = true := by
  cases h with
  | nil => exact absurd rfl hw
  | cons mem rest => exact rest.hasState (hasState_target mem)

/-- There are members of a set, and some word leads to exactly these. -/
def Attains (a : Automaton) (S : StateSet) : Prop :=
  (∃ s, s ∈ S) ∧ ∃ w, ∀ s, s ∈ S ↔ a.Reaches w s

/-- How many sets of states are attained. -/
noncomputable def attainedCount (a : Automaton) : Nat := {S | a.Attains S}.ncard

/-- The attained sets are those that words lead to and that have members. -/
theorem attains_iff : a.Attains S ↔ (∃ s, s ∈ S) ∧ ∃ w, S = a.reached w := by
  refine and_congr_right fun _ => exists_congr fun w => ⟨fun h => ?_, fun h s => ?_⟩
  · exact OrderedSet.ext_mem fun s => by rw [h, mem_reached]
  · rw [h, mem_reached]

/-- The set of the start state is attained, by the empty word. -/
theorem attains_start : a.Attains {a.start} :=
  attains_iff.2 ⟨⟨a.start, by simp⟩, [], rfl⟩

/-- Where a label leads from an attained set is an attained set, if it leads to some state. -/
theorem Attains.afterLabel (h : a.Attains S) (ht : t ∈ a.afterLabel S l) :
    a.Attains (a.afterLabel S l) := by
  obtain ⟨-, w, rfl⟩ := attains_iff.1 h
  exact attains_iff.2 ⟨⟨t, ht⟩, w ++ [l], reached_concat.symm⟩

/-- Attained sets hold states of the automaton, if the start state is one. -/
theorem Attains.hasState (h : a.Attains S) (start : a.hasState a.start = true) (hs : s ∈ S) :
    a.hasState s = true := by
  obtain ⟨-, w, hw⟩ := h
  exact Path.hasState ((hw s).1 hs) start

end TouchAutomata.Automaton
