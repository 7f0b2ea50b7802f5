import TouchAutomata.Determinization.LabelGroup

/-!
# Which states can be reached

From a set of states the search spreads along the edges, one layer at a time, until a layer
brings no new state. Each layer but the last brings the target of an edge that was not seen
before, so there are at most as many layers as edges.
-/

set_option autoImplicit false

namespace TouchAutomata.Automaton

/-- The targets of the edges that leave one of several states. -/
def successors (a : Automaton) (states : StateSet) : StateSet :=
  .ofList ((a.leavingAny states).map Edge.target)

/-- Adds at most `layers` layers to the states seen; `border` is the latest layer. -/
def spread (a : Automaton) : Nat → StateSet → StateSet → StateSet
  | 0, seen, _ => seen
  | layers + 1, seen, border =>
    let fresh := (a.successors border).filter (· ∉ seen)
    if fresh.isEmpty then seen else a.spread layers (seen ∪ fresh) fresh

/-- All states to which a path leads from one of several states, these included. -/
def reachableFrom (a : Automaton) (states : StateSet) : StateSet :=
  a.spread a.transitionCount states states

/-- All states to which a path leads from the start state, if the automaton has it. -/
def reachable (a : Automaton) : StateSet :=
  if a.hasState a.start then a.reachableFrom {a.start} else ∅

/-- The states to which no path leads from the start state, ascending. -/
def unreachable (a : Automaton) : List StateId :=
  let reached := a.reachable
  a.states.toList.filter (· ∉ reached)

end TouchAutomata.Automaton
