import TouchAutomata.Determinization.Exploration
import TouchAutomata.Touch.Policy

/-!
# Settings

What a user may set for good: how touches are read, how many deterministic states may be made,
the form of the output, and the level of the log. Every setting has a default.
-/

set_option autoImplicit false

namespace TouchAutomata

/-- The forms in which an automaton is put out. -/
inductive OutputFormat where
  /-- Graphviz text. -/
  | dot
  | json
  /-- A table for people. -/
  | table
  deriving DecidableEq, Repr, Inhabited

namespace OutputFormat

/-- All forms. -/
def all : List OutputFormat := [dot, json, table]

/-- The name of a form. -/
def name : OutputFormat → String
  | dot => "dot"
  | json => "json"
  | table => "table"

/-- The form with a name. -/
def ofName? (name : String) : Option OutputFormat := all.find? fun f => f.name = name

end OutputFormat

/-- The policy with a name. -/
def Policy.ofName? (name : String) : Option Policy :=
  [Policy.lenient, .strict].find? fun p => p.name = name

/-- What a user has set. -/
structure Settings where
  policy : Policy := .lenient
  /-- How many deterministic states may be made; zero stands for no limit. -/
  maxStates : Nat := defaultStateLimit
  format : OutputFormat := .dot
  logLevel : String := "info"
  deriving DecidableEq, Inhabited

/-- A number of states as a limit; zero stands for no limit. -/
def StateLimit.ofCount (count : Nat) : StateLimit := if count = 0 then none else some count

/-- The limit that is set. -/
def Settings.limit (s : Settings) : StateLimit := StateLimit.ofCount s.maxStates

end TouchAutomata
