import TouchAutomata.Determinization.Basic
import TouchAutomata.Inspection.Basic
import TouchAutomata.Text.Columns

/-!
# Automata, inspections and touches as tables

Listings for people: a summary and the edges of an automaton, the lines of an inspection, and
the parts of touches, in columns of fixed width.
-/

set_option autoImplicit false

namespace TouchAutomata.Listing

open Text

/-- Texts with commas between them; a dash stands for none. -/
def commaList : List String → String
  | [] => "-"
  | texts => ", ".intercalate texts

/-- The word for a truth value. -/
def yesNo (b : Bool) : String := if b then "yes" else "no"

/-- One row of the table of edges. -/
def edgeRow (source target symbol triggers : String) : String :=
  alignRight 6 source ++ " " ++ alignRight 6 target ++ "  " ++ alignLeft 40 symbol ++ " " ++
    alignLeft 24 triggers

/-- The row of an edge. -/
def rowOfEdge (e : Edge) : String :=
  edgeRow (toString e.source) (toString e.target) (abbreviate 40 e.label)
    (commaList (e.touch.triggers.toList.map Numeral.signedText))

/-- The row of a deterministic state and the set it stands for. -/
def rowOfSet (entry : StateId × StateSet) : String :=
  alignRight 6 (toString entry.1) ++ "  \x7b" ++ stateSetText entry.2 ++ "\x7d"

/-- The edges of an automaton, if there are any. -/
def edgeLines (a : Automaton) : List String :=
  if a.transitionCount = 0 then []
  else
    ["Transitions:", rule '-', edgeRow "From" "To" "Symbol" "Triggers", rule '-'] ++
      a.edges.map rowOfEdge ++ [""]

/-- The sets of states of a report, if there are any. -/
def setLines : Option DeterminizationReport → List String
  | none => []
  | some report =>
    if report.stateSets.isEmpty then []
    else ["DFA States:", rule '-'] ++ report.stateSets.toList.map rowOfSet ++ [""]

/-- An automaton as a table, with the report of the determinization that made it, if any. -/
def automatonTable (a : Automaton) (report : Option DeterminizationReport) : String :=
  lines <|
    ["Transition Table", rule '=', "", "Summary:",
      "  Start State:        " ++ toString a.start,
      "  Total States:       " ++ toString a.stateCount,
      "  Total Transitions:  " ++ toString a.transitionCount,
      "  Accept States:      " ++ commaList (a.acceptStates.map toString), ""] ++
    edgeLines a ++ setLines report

/-- An inspection as a table. -/
def inspectionTable (i : Inspection) : String :=
  lines
    ["Automaton Analysis", rule '=',
      "  Start State:        " ++ toString i.startState,
      "  Total States:       " ++ toString i.totalStates,
      "  Total Transitions:  " ++ toString i.totalTransitions,
      "  Accept States:      " ++ commaList (i.acceptStates.map toString),
      "  Unreachable States: " ++ commaList (i.unreachableStates.map toString),
      "  Max Out-Degree:     " ++ toString i.maxOutDegree,
      "  Has Cycles:         " ++ yesNo i.hasCycles,
      "  Deterministic:      " ++ yesNo i.isDeterministic]

/-- One row of the table of touches. -/
def touchRow (encoding action number attributes label : String) : String :=
  alignLeft 24 encoding ++ " " ++ alignLeft 6 action ++ " " ++ alignRight 6 number ++ "  " ++
    alignLeft 24 attributes ++ " " ++ label

/-- The row of a touch and the text it was read from. -/
def rowOfTouch (encoding : String) (t : Touch) : String :=
  touchRow (abbreviate 24 encoding) t.action.name (Numeral.signedText t.number)
    (abbreviate 24 (", ".intercalate t.attributes)) t.label

/-- Touches as a table, each with the text it was read from. -/
def touchTable (touches : List (String × Touch)) : String :=
  lines <|
    [touchRow "Encoding" "Action" "Id" "Attributes" "Canonical", rule '-'] ++
      touches.map fun e => rowOfTouch e.1 e.2

end TouchAutomata.Listing
