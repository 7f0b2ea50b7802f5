import TouchAutomata.Settings.Basic
import TouchAutomata.Toml.Reader
import TouchAutomata.Toml.Writer

/-!
# Settings as a TOML document

Each setting stands in a section of its own; sections and settings that are missing have their
defaults, and names that are not known do not matter.
-/

set_option autoImplicit false

namespace TouchAutomata.Settings

/-- The names of the sections, in their order. -/
def sectionNames : List (List String) := [["symbols"], ["conversion"], ["export"], ["logging"]]

/-- The setting that a section holds under a name, read by `value?`. -/
def ofSection? {α : Type} (name : String) (default : α) (value? : Data → Option α) :
    Option Data → Option α
  | none => some default
  | some data =>
    match data.fields? Toml.surplus [[name]] with
    | some [none] => some default
    | some [some value] => value? value
    | _ => none

/-- The settings that a piece of data describes. -/
def ofData? (data : Data) : Option Settings :=
  match data.fields? Toml.surplus sectionNames with
  | some [symbols, conversion, output, logging] => do
    let defaults : Settings := {}
    let policy ← ofSection? "policy" defaults.policy
      (fun d => d.choice?.bind Policy.ofName?) symbols
    let maxStates ← ofSection? "max_dfa_states" defaults.maxStates Data.count? conversion
    let format ← ofSection? "format" defaults.format
      (fun d => d.choice?.bind OutputFormat.ofName?) output
    let logLevel ← ofSection? "level" defaults.logLevel Data.text? logging
    some { policy, maxStates, format, logLevel }
  | _ => none

/-- The settings that a TOML document holds. -/
def parse (text : String) : Option Settings := (Toml.read text).bind ofData?

/-- The TOML document of settings: every section with its setting. -/
def toToml (s : Settings) : String :=
  "[symbols]\npolicy = " ++ Toml.quoted s.policy.name ++
    "\n\n[conversion]\nmax_dfa_states = " ++ toString s.maxStates ++
    "\n\n[export]\nformat = " ++ Toml.quoted s.format.name ++
    "\n\n[logging]\nlevel = " ++ Toml.quoted s.logLevel ++ "\n"

end TouchAutomata.Settings
