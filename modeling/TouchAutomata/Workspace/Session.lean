import TouchAutomata.Workspace.View

/-!
# What a command does with files

A command sees files, opens the place of its output, and writes to it. A `Host` offers these
operations: the operating system does, and a `Session`, which holds a workspace and what was
printed so far. A file is emptied when it is opened for output, before anything is written to it.
-/

set_option autoImplicit false

namespace TouchAutomata

/-- What a command needs of the machine it runs on. -/
structure Host (m : Type → Type) where
  /-- The files as they are now. -/
  view : m FileView
  /-- Places that are open for output. -/
  Sink : Type
  /-- Opens a file, or the standard output if none is named. A file that is not there is made, and
  one that is there is emptied. -/
  openSink : Option String → m (Except FileFault Sink)
  /-- Writes a text behind what was written before. -/
  write : Sink → String → m Unit

/-- A workspace, and what has been printed on the standard output. -/
structure Session where
  workspace : Workspace
  printed : String
  deriving DecidableEq

namespace Session

/-- What is open for output in a session. -/
inductive Sink where
  | standardOutput
  | file (place : List String)
  deriving DecidableEq

/-- Opens a file of the workspace, or the standard output. -/
def openSink (s : Session) : Option String → Except FileFault Sink × Session
  | none => (.ok .standardOutput, s)
  | some path =>
    match s.workspace.target path with
    | .ok place => (.ok (.file place), { s with workspace := s.workspace.put place (.text "") })
    | .error cause => (.error cause, s)

/-- Writes a text to what is open. -/
def write (s : Session) (text : String) : Sink → Session
  | .standardOutput => { s with printed := s.printed ++ text }
  | .file place => { s with workspace := s.workspace.append place text }

/-- The operations of a session. -/
def host : Host (StateM Session) where
  view := modifyGet fun s => (s.workspace.view, s)
  Sink := Sink
  openSink file := modifyGet fun s => s.openSink file
  write sink text := modify fun s => s.write text sink

/-- Takes steps in a session. What becomes of the session is told also when a step fails. -/
def take {ε α : Type} (s : Session) (steps : ExceptT ε (StateM Session) α) : Except ε α × Session :=
  steps.run.run s

end Session

end TouchAutomata
