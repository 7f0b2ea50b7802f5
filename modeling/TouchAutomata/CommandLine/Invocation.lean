import TouchAutomata.Settings.Basic

/-!
# Invocations

What a command line asks for: one of four commands with its options, the settings file to use,
and whether touches are read strictly. A command line that asks for nothing of this kind is
answered with the reason.
-/

set_option autoImplicit false

namespace TouchAutomata

/-- A command with its options. -/
inductive Command where
  /-- Make the automaton of a definition deterministic and put it out. -/
  | compile (definition : String) (format : Option OutputFormat) (output : Option String)
      (maxStates : Option Nat)
  /-- Put out the automaton of a definition as Graphviz text. -/
  | draw (definition : String) (output : Option String)
  /-- Show the structure of the automaton of a definition, or of its deterministic one. -/
  | inspect (definition : String) (deterministic json : Bool)
  /-- Show the parts of touches. -/
  | touches (encodings : List String)
  deriving DecidableEq

/-- What a command line asks for. -/
structure Invocation where
  settingsFile : Option String
  strict : Bool
  command : Command
  deriving DecidableEq

/-- Why a command line asks for no command. -/
inductive UsageFault where
  /-- The value of an option is missing, empty, or none of its choices. -/
  | invalidValue
  /-- The value of an option is no number. -/
  | invalidNumber
  /-- A value is attached to an option that has none. -/
  | tooManyValues
  | unknownArgument
  | unknownCommand
  | missingArgument
  | missingCommand
  /-- An option is given twice. -/
  | repeatedOption
  | helpRequested
  | versionRequested
  /-- There are no arguments at all. -/
  | noArguments
  deriving DecidableEq, Repr

/-- The name and the version of the program, as it shows them. -/
def versionText : String := "gesture-dfa 0.1.0\n"

end TouchAutomata
