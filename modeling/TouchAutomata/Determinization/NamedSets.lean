import TouchAutomata.Determinization.Basic

/-!
# Exploring with texts for the sets

An exploration needs the sets it has found only to look up their numbers, and a set has a text by
which it can be looked up as well. An exploration that does so keeps a table of texts with their
numbers; a set itself is kept until it is explored. It takes its steps in the order of
`Exploration`, and it halts for the same reasons.
-/

set_option autoImplicit false

namespace TouchAutomata

/-- The texts of the sets found so far, and the edges laid between their numbers. -/
structure NamedExploration where
  /-- The texts of the sets found, in order, with the numbers of the sets. -/
  numbers : List (String × StateId)
  /-- The sets found and not explored yet, in order. -/
  pending : List (StateSet × StateId)
  /-- The number of the next set. -/
  fresh : StateId
  /-- The automaton over the numbers. -/
  result : Automaton

namespace NamedExploration

/-- An exploration that ended before all was explored. -/
structure Halt where
  fault : Fault
  reached : NamedExploration

/-- The number of a set found before that has the same text. -/
def number? (x : NamedExploration) (states : StateSet) : Option StateId :=
  x.numbers.lookup (stateSetText states)

/-- Gives the text of a new set the next number and leaves the set to be explored. -/
def discover (x : NamedExploration) (states : StateSet) : NamedExploration :=
  { x with
    numbers := x.numbers ++ [(stateSetText states, x.fresh)]
    pending := x.pending ++ [(states, x.fresh)]
    fresh := x.fresh + 1 }

/-- Lays an edge between two numbers. -/
def lay (x : NamedExploration) (source target : StateId) (touch : Touch) : NamedExploration :=
  { x with result := x.result.add ⟨source, target, touch⟩ }

/-- Whether another set exceeds the limit. -/
def isFull (x : NamedExploration) (limit : Nat) : Bool := limit ≤ x.numbers.length

/-- Lays the edge for one label that leaves a set. -/
def follow (limit : StateLimit) (source : StateId) (x : NamedExploration) (g : LabelGroup) :
    Except Halt NamedExploration :=
  match x.number? g.targets with
  | some target => .ok (x.lay source target g.touch)
  | none =>
    match limit.filter x.isFull with
    | some l => .error ⟨.stateLimitExceeded l, x⟩
    | none => .ok ((x.discover g.targets).lay source x.fresh g.touch)

/-- Lays the edges for all labels that leave a set. -/
def expand (a : Automaton) (limit : StateLimit) (x : NamedExploration) (states : StateSet)
    (source : StateId) : Except Halt NamedExploration :=
  match states.toList.find? fun s => !a.hasState s with
  | some s => .error ⟨.stateNotFound s, x⟩
  | none => (a.labelGroups states).values.foldlM (follow limit source) x

/-- Explores pending sets, as many as `rounds` says, until none is left. -/
def explore (a : Automaton) (limit : StateLimit) :
    Nat → NamedExploration → Except Halt NamedExploration
  | 0, x => .ok x
  | rounds + 1, x =>
    match x.pending with
    | [] => .ok x
    | (states, source) :: rest => do
      let y ← expand a limit { x with pending := rest } states source
      explore a limit rounds y

/-- The exploration that has found the set of one state and lays its edges into `target`. -/
def begin (start : StateId) (target : Automaton) : NamedExploration :=
  discover ⟨[], [], Automaton.defaultStart, target⟩ {start}

/-- Explores an automaton from its start state until no set is pending, and lays the edges into
`target`. -/
def ofAutomaton (a : Automaton) (limit : StateLimit) (target : Automaton) :
    Except Halt NamedExploration :=
  explore a limit (Nat.pow 2 a.stateCount) (begin a.start target)

end NamedExploration

end TouchAutomata
