import TouchAutomata.Inspection.Cycle
import TouchAutomata.Inspection.Reachability

/-!
# Inspecting an automaton

A summary of the structure of an automaton: its size, its accepting and its unreachable states,
the largest number of edges that leave one state, whether there is a cycle, and whether no
label leads from one state to two.
-/

set_option autoImplicit false

namespace TouchAutomata

namespace Automaton

/-- The largest number of edges that leave one state. -/
def maxOutDegree (a : Automaton) : Nat :=
  (a.states.toList.map fun s => (a.leaving s).length).foldl max 0

/-- Notes where an edge leads, unless its label was noted to lead from its source elsewhere. -/
def noteTarget (noted : List ((StateId × String) × StateId)) (e : Edge) :
    Option (List ((StateId × String) × StateId)) :=
  if (noted.lookup (e.source, e.label)).all (· = e.target) then
    some (((e.source, e.label), e.target) :: noted)
  else none

/-- Whether edges with the same source and the same label have the same target. The edges are gone
through once, up to the first that contradicts an earlier one. -/
def isDeterministic (a : Automaton) : Bool := (a.edges.foldlM noteTarget []).isSome

end Automaton

/-- What an inspection of an automaton tells. -/
structure Inspection where
  startState : StateId
  totalStates : Nat
  totalTransitions : Nat
  acceptStates : List StateId
  unreachableStates : List StateId
  maxOutDegree : Nat
  hasCycles : Bool
  isDeterministic : Bool
  deriving DecidableEq

/-- The summary of an automaton. -/
def Automaton.inspect (a : Automaton) : Inspection where
  startState := a.start
  totalStates := a.stateCount
  totalTransitions := a.transitionCount
  acceptStates := a.acceptStates
  unreachableStates := a.unreachable
  maxOutDegree := a.maxOutDegree
  hasCycles := a.hasCycle
  isDeterministic := a.isDeterministic

end TouchAutomata
