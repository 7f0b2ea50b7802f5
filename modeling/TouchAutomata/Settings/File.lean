import TouchAutomata.Settings.Document
import TouchAutomata.Workspace.View

/-!
# Where settings are kept

Settings are read from the file that the user names, else from the first of the usual places
that is there: in the current directory, in the home directory, and for the whole machine.
Without any file every setting has its default.
-/

set_option autoImplicit false

namespace TouchAutomata.Settings

/-- The usual places of settings, the first to be tried first. -/
def usualPlaces (home : Option String) : List String :=
  "gesture-dfa.toml" ::
    (home.map fun h => h ++ "/.gesture-dfa/config.toml").toList ++ ["/etc/gesture-dfa/config.toml"]

/-- The settings in a file. -/
def load (files : FileView) (path : String) : Except Fault Settings :=
  match files.readText path with
  | .error cause => .error (.settings (.unreadable path cause))
  | .ok text =>
    match parse text with
    | some s => .ok s
    | none => .error (.settings (.malformed path))

/-- The settings that are in force, and the file they come from. -/
def resolve (files : FileView) (home : Option String) (chosen : Option String) :
    Except Fault (Settings × Option String) :=
  match chosen <|> (usualPlaces home).find? files.has with
  | some path => (load files path).map fun s => (s, some path)
  | none => .ok ({}, none)

end TouchAutomata.Settings
