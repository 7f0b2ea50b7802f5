import TouchAutomata.Text.Quoted

/-!
# What can go wrong

One type holds every way in which an operation of the library fails, as causes; the wording is
in `Fault.message` alone. Faults of the file system have the wording and the numbers of the
operating system.
-/

set_option autoImplicit false

namespace TouchAutomata

/-- Identifier of a state. -/
abbrev StateId := UInt32

/-- Why a file could not be read or made. -/
inductive FileFault where
  | notFound
  | notDirectory
  | isDirectory
  | nameTooLong
  | nulInName
  | notUtf8
  /-- Any other fault, in the words of the operating system. -/
  | other (text : String)
  deriving DecidableEq, Repr, Inhabited

/-- The wording of a fault of the file system. -/
def FileFault.message : FileFault → String
  | notFound => "No such file or directory (os error 2)"
  | notDirectory => "Not a directory (os error 20)"
  | isDirectory => "Is a directory (os error 21)"
  | nameTooLong => "File name too long (os error 36)"
  | nulInName => "file name contained an unexpected NUL byte"
  | notUtf8 => "stream did not contain valid UTF-8"
  | other text => text

/-- Why a definition could not be loaded. -/
inductive DefinitionFault where
  | unreadable (cause : FileFault)
  | unsupportedExtension
  /-- The text is not of its format, or does not hold a definition. -/
  | malformed
  /-- Any other reason, in words. -/
  | other (text : String)
  deriving DecidableEq, Repr, Inhabited

/-- The wording of a fault of a definition. -/
def DefinitionFault.message : DefinitionFault → String
  | unreadable cause => "Failed to read definition: " ++ cause.message
  | unsupportedExtension => "unsupported extension, expected .toml or .json"
  | malformed => "not a valid definition"
  | other text => text

/-- Why settings could not be loaded. -/
inductive SettingsFault where
  | unreadable (path : String) (cause : FileFault)
  /-- The text is not of its format, or does not hold settings. -/
  | malformed (path : String)
  /-- Any other reason, in words. -/
  | other (text : String)
  deriving DecidableEq, Repr, Inhabited

/-- The wording of a fault of the settings. -/
def SettingsFault.message : SettingsFault → String
  | unreadable path cause =>
    "Failed to read config file " ++ Text.quoted path ++ ": " ++ cause.message
  | malformed path => "Failed to parse config file " ++ Text.quoted path
  | other text => text

/-- Every way in which an operation fails. -/
inductive Fault where
  | file (cause : FileFault)
  /-- A state was asked for that the automaton does not have. -/
  | stateNotFound (state : StateId)
  /-- The edges between two states were asked for, and there are none. -/
  | transitionNotFound (source target : StateId)
  /-- The strict policy refused the text of a touch. -/
  | malformedTouch (encoding reason : String)
  /-- A deterministic automaton can only be built into an empty one. -/
  | destinationNotEmpty (states : Nat)
  /-- More deterministic states are needed than the limit allows. -/
  | stateLimitExceeded (limit : Nat)
  | definition (path : String) (cause : DefinitionFault)
  | settings (cause : SettingsFault)
  | serialization (text : String)
  | custom (text : String)
  deriving DecidableEq, Repr, Inhabited

namespace Fault

/-- The wording of a fault. -/
def message : Fault → String
  | file cause => "IO error: " ++ cause.message
  | stateNotFound state => "State " ++ toString state ++ " not found in transition table"
  | transitionNotFound source target =>
    "No transition from state " ++ toString source ++ " to state " ++ toString target
  | malformedTouch encoding reason =>
    "Malformed touch symbol " ++ Text.quoted encoding ++ ": " ++ reason
  | destinationNotEmpty states =>
    "Destination table already has " ++ toString states ++
      " state(s); DFA conversion requires an empty table"
  | stateLimitExceeded limit =>
    "DFA state limit of " ++ toString limit ++ " exceeded during subset construction"
  | definition path cause =>
    "Definition error in " ++ Text.quoted path ++ ": " ++ cause.message
  | settings cause => "Configuration error: " ++ cause.message
  | serialization text => "Serialization error: " ++ text
  | custom text => text

/-- Whether a state or an edge was asked for that is not there. -/
def isNotFound : Fault → Bool
  | stateNotFound _ | transitionNotFound _ _ => true
  | _ => false

end Fault

end TouchAutomata
