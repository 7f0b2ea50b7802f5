import TouchAutomata.Automaton.Basic
import TouchAutomata.Touch.Policy

/-!
# Definitions of automata

A definition lists the edges of an automaton as a person writes them: the text of a touch, the
two states, and the triggers. A policy for the touches turns it into an automaton; an automaton
in turn has a definition, which lists its edges in their order.
-/

set_option autoImplicit false

namespace TouchAutomata

/-- One edge as it is defined. -/
structure DefinedEdge where
  symbol : String
  source : StateId
  target : StateId
  triggers : List Int32 := []
  deriving DecidableEq, Inhabited

/-- The edges of an automaton as they are defined, and its start state if it is chosen. -/
structure Definition where
  start : Option StateId := none
  edges : List DefinedEdge := []
  deriving DecidableEq, Inhabited

namespace Definition

/-- Adds a defined edge to an automaton. -/
def addEdge (policy : Policy) (a : Automaton) (e : DefinedEdge) : Except Fault Automaton :=
  (Touch.read policy e.symbol).map fun touch =>
    a.add ⟨e.source, e.target, touch.addTriggers e.triggers⟩

/-- The automaton without edges that has the chosen start state. -/
def blank (d : Definition) : Automaton :=
  match d.start with
  | some s => (∅ : Automaton).withStart s
  | none => ∅

/-- The automaton of a definition. The first touch that the policy refuses is the fault. -/
def build (d : Definition) (policy : Policy) : Except Fault Automaton :=
  d.edges.foldlM (addEdge policy) d.blank

/-- The definition of one edge of an automaton. -/
def ofEdge (e : Edge) : DefinedEdge where
  symbol := e.label
  source := e.source
  target := e.target
  triggers := e.touch.triggers.toList

/-- The definition of an automaton. -/
def ofAutomaton (a : Automaton) : Definition where
  start := some a.start
  edges := a.edges.map ofEdge

end Definition

end TouchAutomata
