import TouchAutomata.Determinization.Exploration

/-!
# Making an automaton deterministic

The deterministic automaton of an automaton has one state for each set of states that some
sequence of labels leads to, and one edge for each label that leaves such a set. It is built
into an automaton without states, and comes with a report that tells which set each state
stands for. An automaton whose start state has no edge gives the automaton without states.
-/

set_option autoImplicit false

namespace TouchAutomata

/-- What came out of a determinization. -/
structure DeterminizationReport where
  states : Nat
  transitions : Nat
  /-- The set of states that each deterministic state stands for. -/
  stateSets : OrderedMap StateId StateSet
  deriving DecidableEq

/-- The members of a set of states, ascending and joined by low lines. -/
def stateSetText (states : StateSet) : String :=
  "_".intercalate (states.toList.map toString)

namespace Exploration

/-- The automaton of a finished exploration; it has the first number as its start state. -/
def finished (x : Exploration) : Automaton :=
  if x.result.isEmpty then x.result else x.result.withStart Automaton.defaultStart

/-- The report of a finished exploration. A set whose number no edge has is left out. -/
def report (x : Exploration) : DeterminizationReport where
  states := x.finished.stateCount
  transitions := x.finished.transitionCount
  stateSets := x.stateSets.filterKeys x.finished.hasState

end Exploration

namespace Automaton

/-- Builds the deterministic automaton of `a` into `target`, which must have no states. The
second result is what `target` has become, also when the first is a fault. -/
def determinizeInto (a target : Automaton) (limit : StateLimit) :
    Except Fault DeterminizationReport × Automaton :=
  if !target.isEmpty then (.error (.destinationNotEmpty target.stateCount), target)
  else if a.isEmpty then (.ok ⟨0, 0, ∅⟩, target)
  else
    match Exploration.ofAutomaton a limit target with
    | .error halt => (.error halt.fault, halt.reached.result)
    | .ok x => (.ok x.report, x.finished)

/-- The deterministic automaton of an automaton, and its report. -/
def determinize (a : Automaton) (limit : StateLimit) :
    Except Fault (Automaton × DeterminizationReport) :=
  match a.determinizeInto ∅ limit with
  | (.ok report, dfa) => .ok (dfa, report)
  | (.error fault, _) => .error fault

end Automaton

end TouchAutomata
