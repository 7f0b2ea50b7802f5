import TouchAutomata.Determinization.LabelGroup

/-!
# Exploring the reachable sets of states

Beginning with the set of the start state alone, an exploration finds the sets of states that
lie behind the labels, breadth first and label by label in ascending order. Each set found gets
the next number and is explored once; an edge between numbers is laid for each label. The
exploration halts early when a set would exceed the limit, and then it keeps what it has laid.

Each round takes a set of states that was never taken before, so no more rounds are needed than
there are sets of states; `Exploration.ofAutomaton` allows for that many.
-/

set_option autoImplicit false

namespace TouchAutomata

/-- How many deterministic states may be made; without a number there is no limit. -/
abbrev StateLimit := Option Nat

/-- The limit where none is chosen. -/
def defaultStateLimit : Nat := 65536

/-- The sets found so far, and the edges laid between their numbers. -/
structure Exploration where
  /-- The sets found, in order, with their numbers. -/
  found : List (StateSet × StateId)
  /-- The sets found and not explored yet, in order. -/
  pending : List (StateSet × StateId)
  /-- The set behind each number. -/
  stateSets : OrderedMap StateId StateSet
  /-- The number of the next set. -/
  fresh : StateId
  /-- The automaton over the numbers. -/
  result : Automaton

namespace Exploration

/-- An exploration that ended before all was explored. -/
structure Halt where
  fault : Fault
  reached : Exploration

/-- The number of a set found before. -/
def number? (x : Exploration) (states : StateSet) : Option StateId := x.found.lookup states

/-- Gives a new set the next number and leaves it to be explored. -/
def discover (x : Exploration) (states : StateSet) : Exploration :=
  { x with
    found := x.found ++ [(states, x.fresh)]
    pending := x.pending ++ [(states, x.fresh)]
    stateSets := x.stateSets.insert x.fresh states
    fresh := x.fresh + 1 }

/-- Lays an edge between two numbers. -/
def lay (x : Exploration) (source target : StateId) (touch : Touch) : Exploration :=
  { x with result := x.result.add ⟨source, target, touch⟩ }

/-- Whether another set exceeds the limit. -/
def isFull (x : Exploration) (limit : Nat) : Bool := limit ≤ x.found.length

/-- Lays the edge for one label that leaves a set. -/
def follow (limit : StateLimit) (source : StateId) (x : Exploration) (g : LabelGroup) :
    Except Halt Exploration :=
  match x.number? g.targets with
  | some target => .ok (x.lay source target g.touch)
  | none =>
    match limit.filter x.isFull with
    | some l => .error ⟨.stateLimitExceeded l, x⟩
    | none => .ok ((x.discover g.targets).lay source x.fresh g.touch)

/-- Lays the edges for all labels that leave a set. -/
def expand (a : Automaton) (limit : StateLimit) (x : Exploration) (states : StateSet)
    (source : StateId) : Except Halt Exploration :=
  match states.toList.find? fun s => !a.hasState s with
  | some s => .error ⟨.stateNotFound s, x⟩
  | none => (a.labelGroups states).values.foldlM (follow limit source) x

/-- Explores pending sets, as many as `rounds` says, until none is left. -/
def explore (a : Automaton) (limit : StateLimit) : Nat → Exploration → Except Halt Exploration
  | 0, x => .ok x
  | rounds + 1, x =>
    match x.pending with
    | [] => .ok x
    | (states, source) :: rest => do
      let y ← expand a limit { x with pending := rest } states source
      explore a limit rounds y

/-- The exploration that has found the set of one state and lays its edges into `target`. -/
def begin (start : StateId) (target : Automaton) : Exploration :=
  discover ⟨[], [], ∅, Automaton.defaultStart, target⟩ {start}

/-- Explores an automaton from its start state until no set is pending, and lays the edges into
`target`. -/
def ofAutomaton (a : Automaton) (limit : StateLimit) (target : Automaton) :
    Except Halt Exploration :=
  explore a limit (Nat.pow 2 a.stateCount) (begin a.start target)

end Exploration

end TouchAutomata
