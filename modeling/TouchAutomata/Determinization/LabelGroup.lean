import TouchAutomata.Automaton.Lookup

/-!
# Edges grouped by label

A deterministic automaton follows all edges with one label at once. Of the edges that leave a
set of states, those with the same label form a group: the set of their targets, and one touch
that carries the triggers of all. The groups lie in ascending order of their labels.
-/

set_option autoImplicit false

namespace TouchAutomata

/-- Edges with one label, taken together. -/
structure LabelGroup where
  /-- The touch of the first edge, with the triggers of all. -/
  touch : Touch
  targets : StateSet
  deriving DecidableEq

namespace LabelGroup

/-- Takes an edge into the group of its label, or begins that group with it. -/
def join (e : Edge) : Option LabelGroup → LabelGroup
  | none => ⟨e.touch, {e.target}⟩
  | some g => ⟨g.touch.addTriggers e.touch.triggers.toList, g.targets.insert e.target⟩

/-- Takes an edge into the groups. -/
def collect (gs : OrderedMap String LabelGroup) (e : Edge) : OrderedMap String LabelGroup :=
  gs.update e.label (join e)

/-- The groups of a list of edges. -/
def ofEdges (es : List Edge) : OrderedMap String LabelGroup := es.foldl collect ∅

end LabelGroup

namespace Automaton

/-- The edges that leave one of several states, in the order of the states. -/
def leavingAny (a : Automaton) (states : StateSet) : List Edge :=
  states.toList.flatMap a.leaving

/-- The edges that leave one of several states, grouped by label. -/
def labelGroups (a : Automaton) (states : StateSet) : OrderedMap String LabelGroup :=
  LabelGroup.ofEdges (a.leavingAny states)

end Automaton

end TouchAutomata
