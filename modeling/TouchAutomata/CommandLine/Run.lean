import TouchAutomata.CommandLine.Arguments
import TouchAutomata.Definition.File
import TouchAutomata.Graphviz.Writer
import TouchAutomata.Listing.Json
import TouchAutomata.Listing.Table
import TouchAutomata.Settings.File
import TouchAutomata.Workspace.Session

/-!
# Carrying out a command

A command takes its steps one after the other, and the first that fails is the last. It reads the
files it needs and works out what is to be put out; then it opens the place of its output, and at
last it writes. The steps are the same on every host.
-/

set_option autoImplicit false

namespace TouchAutomata

/-- An automaton in one of the output forms. -/
def OutputFormat.render (format : OutputFormat) (a : Automaton)
    (report : Option DeterminizationReport) : String :=
  match format with
  | .dot => Graphviz.ofAutomaton a
  | .json => Listing.automatonJson a report
  | .table => Listing.automatonTable a report

namespace Command

variable {m : Type → Type} [Monad m] {α : Type}

/-- A step that does without the host. -/
def settle (result : Except Fault α) : ExceptT Fault m α := ExceptT.mk (pure result)

/-- Opens the place of the output. -/
def openOutput (host : Host m) (file : Option String) : ExceptT Fault m host.Sink :=
  ExceptT.mk (Except.mapError Fault.file <$> host.openSink file)

/-- Writes a text to what is open. -/
def write (host : Host m) (sink : host.Sink) (text : String) : ExceptT Fault m Unit :=
  ExceptT.lift (host.write sink text)

/-- The automaton that a file defines. -/
def loadAutomaton (host : Host m) (policy : Policy) (path : String) :
    ExceptT Fault m Automaton := do
  let files ← ExceptT.lift host.view
  let d ← settle (Definition.load files path)
  settle (d.build policy)

/-- Reads touches with the texts they are read from. -/
def readTouches (policy : Policy) (encodings : List String) :
    Except Fault (List (String × Touch)) :=
  encodings.mapM fun encoding => (Touch.read policy encoding).map fun t => (encoding, t)

/-- The steps of a command under a policy. -/
def run (host : Host m) (settings : Settings) (policy : Policy) :
    Command → ExceptT Fault m Unit
  | compile definition format file maxStates => do
    let limit := (maxStates.map StateLimit.ofCount).getD settings.limit
    let nfa ← loadAutomaton host policy definition
    let (dfa, report) ← settle (nfa.determinize limit)
    let sink ← openOutput host file
    write host sink ((format.getD settings.format).render dfa (some report))
  | draw definition file => do
    let nfa ← loadAutomaton host policy definition
    let sink ← openOutput host file
    write host sink (Graphviz.ofAutomaton nfa)
  | inspect definition deterministic json => do
    let nfa ← loadAutomaton host policy definition
    let a ← settle <|
      if deterministic then (nfa.determinize settings.limit).map Prod.fst else .ok nfa
    let sink ← openOutput host none
    write host sink <|
      if json then Listing.inspectionJson a.inspect else Listing.inspectionTable a.inspect
  | touches encodings => do
    let read ← settle (readTouches policy encodings)
    let sink ← openOutput host none
    write host sink (Listing.touchTable read)

end Command

/-- The steps of an invocation. -/
def Invocation.run {m : Type → Type} [Monad m] (i : Invocation) (host : Host m)
    (settings : Settings) : ExceptT Fault m Unit :=
  i.command.run host settings (if i.strict then .strict else settings.policy)

/-- What a command has brought about. -/
structure Outcome where
  fault : Option Fault
  /-- The text on the standard output. -/
  printed : String
  workspace : Workspace
  deriving DecidableEq

namespace Workspace

/-- A command that ended with a fault. -/
def failed (w : Workspace) (fault : Fault) : Outcome := ⟨some fault, "", w⟩

/-- Carries out an invocation under settings. -/
def execute (w : Workspace) (settings : Settings) (i : Invocation) : Outcome :=
  match Session.take ⟨w, ""⟩ (i.run Session.host settings) with
  | (.ok _, s) => ⟨none, s.printed, s.workspace⟩
  | (.error fault, s) => ⟨some fault, s.printed, s.workspace⟩

/-- Finds the settings of an invocation and carries it out. -/
def perform (w : Workspace) (home : Option String) (i : Invocation) : Outcome :=
  match Settings.resolve w.view home i.settingsFile with
  | .ok (settings, _) => w.execute settings i
  | .error fault => w.failed fault

end Workspace

end TouchAutomata
