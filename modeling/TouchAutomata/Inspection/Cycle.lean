import TouchAutomata.Automaton.Basic

/-!
# Whether there is a cycle

A state is settled when all its successors are settled before it. Settling a state goes depth
first along the edges and remembers the states on its trail; it fails exactly when it comes
back to one of these. If all states can be settled, then each edge leads to a state that was
settled earlier, so there is no cycle.
-/

set_option autoImplicit false

namespace TouchAutomata.Automaton

/-- The states to which an edge leads from a state. -/
def targets (a : Automaton) (s : StateId) : List StateId := (a.leaving s).map Edge.target

/-- Settles a state after its successors; the latest settled state comes first in the list. The
number bounds the length of the trail. -/
def settle (a : Automaton) :
    Nat → List StateId → List StateId → StateId → Option (List StateId)
  | 0, _, _, _ => none
  | depth + 1, trail, settled, s =>
    if s ∈ settled then some settled
    else if s ∈ trail then none
    else
      ((a.targets s).foldlM (fun settled t => settle a depth (s :: trail) settled t) settled).map
        (s :: ·)

/-- All states, each before those that were settled earlier, if they can be settled. A trail
repeats no state, so it is at most as long as there are states. -/
def settleAll (a : Automaton) : Option (List StateId) :=
  a.states.toList.foldlM (settle a (a.stateCount + 1) []) []

/-- Whether a path that is not empty leads from some state back to it. -/
def hasCycle (a : Automaton) : Bool := a.settleAll.isNone

end TouchAutomata.Automaton
