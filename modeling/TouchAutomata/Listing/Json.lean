import TouchAutomata.Determinization.Basic
import TouchAutomata.Inspection.Basic
import TouchAutomata.Json.Writer

/-!
# Automata and inspections as JSON

Records whose fields lie in the order of their names. The edges of an automaton are listed in
their order, and each set of states that a deterministic state stands for is listed under the
number of that state; these numbers are ordered as texts.
-/

set_option autoImplicit false

namespace TouchAutomata.Listing

/-- The list of states as data. -/
def statesData (states : List StateId) : Data := .list (states.map Data.ofWord)

/-- An edge as data. -/
def edgeData (e : Edge) : Data :=
  .ofFields [("from", .ofWord e.source), ("symbol", .ofText e.label), ("to", .ofWord e.target),
    ("triggers", .list (e.touch.triggers.toList.map Data.ofSigned))]

/-- The sets of states of a report, by the decimal text of the number. -/
def setsByText (report : DeterminizationReport) : OrderedMap String StateSet :=
  report.stateSets.toList.foldl (fun m e => m.insert (toString e.1) e.2) ∅

/-- The sets of states of a report as data. -/
def setsData : Option DeterminizationReport → Data
  | none => .null
  | some report => .ofFields ((setsByText report).toList.map fun e => (e.1, statesData e.2.toList))

/-- The size and the accepting states of an automaton as data. -/
def summaryData (a : Automaton) : Data :=
  .ofFields [("accept_states", statesData a.acceptStates), ("total_states", .ofNat a.stateCount),
    ("total_transitions", .ofNat a.transitionCount)]

/-- An automaton as data, with the report of the determinization that made it, if any. -/
def automatonData (a : Automaton) (report : Option DeterminizationReport) : Data :=
  .ofFields [("start_state", .ofWord a.start), ("state_sets", setsData report),
    ("summary", summaryData a), ("transitions", .list (a.edges.map edgeData))]

/-- An inspection as data. -/
def inspectionData (i : Inspection) : Data :=
  .ofFields [("accept_states", statesData i.acceptStates), ("has_cycles", .boolean i.hasCycles),
    ("is_deterministic", .boolean i.isDeterministic), ("max_out_degree", .ofNat i.maxOutDegree),
    ("start_state", .ofWord i.startState), ("total_states", .ofNat i.totalStates),
    ("total_transitions", .ofNat i.totalTransitions),
    ("unreachable_states", statesData i.unreachableStates)]

/-- A piece of data on lines of its own. -/
def page (data : Data) : String := Json.render .indented data ++ "\n"

/-- An automaton as a JSON document. -/
def automatonJson (a : Automaton) (report : Option DeterminizationReport) : String :=
  page (automatonData a report)

/-- An inspection as a JSON document. -/
def inspectionJson (i : Inspection) : String := page (inspectionData i)

end TouchAutomata.Listing
