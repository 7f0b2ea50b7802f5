import TouchAutomata.Automaton.Basic
import TouchAutomata.Ordered.Map

/-!
# Looking things up in an automaton

Questions about one state or one pair of states. They fail when the state is not there, and the
question for the labels between two states also when no edge joins them.
-/

set_option autoImplicit false

namespace TouchAutomata.Automaton

/-- The edges that leave a state of the automaton. -/
def edgesFrom (a : Automaton) (s : StateId) : Except Fault (List Edge) :=
  if a.hasState s then .ok (a.leaving s) else .error (.stateNotFound s)

/-- Adds the touch of an edge to those that lead to its target. -/
def byTarget (m : OrderedMap StateId (List Touch)) (e : Edge) : OrderedMap StateId (List Touch) :=
  m.update e.target fun touches => touches.getD [] ++ [e.touch]

/-- The touches that lead out of a state, by target. -/
def outgoing (a : Automaton) (s : StateId) : Except Fault (OrderedMap StateId (List Touch)) :=
  (a.edgesFrom s).map fun es => es.foldl byTarget ∅

/-- The touches that lead from one state to another. -/
def between (a : Automaton) (s t : StateId) : Except Fault (List Touch) := do
  let es ← a.edgesFrom s
  match es.filter fun e => e.target = t with
  | [] => .error (.transitionNotFound s t)
  | e :: es => .ok ((e :: es).map Edge.touch)

/-- The states to which a label leads from a state, ascending. -/
def next (a : Automaton) (s : StateId) (label : String) : Except Fault (List StateId) :=
  (a.edgesFrom s).map fun es => (es.filter fun e => e.label = label).map Edge.target

end TouchAutomata.Automaton
