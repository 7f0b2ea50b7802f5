import TouchAutomata.CommandLine.Run

/-!
# What a command that fails leaves behind

The steps of a command that read files and work out a text change nothing (`Silent`), and they all
come before its output is opened (`exists_silent_run`). Opening an output changes nothing if it
fails, and writing does not fail. So a command either ends with a fault and leaves no trace, or it
puts its text at one place (`exists_execute_eq`).
-/

set_option autoImplicit false

namespace TouchAutomata

/-! ## Steps in a session -/

namespace Session

variable {ε α β : Type} {s : Session}

/-- Steps taken one after the other: the later ones are taken in the session that the earlier ones
leave, and not at all if these fail. -/
theorem take_bind (steps : ExceptT ε (StateM Session) α)
    (next : α → ExceptT ε (StateM Session) β) :
    s.take (steps >>= next) =
      match s.take steps with
      | (.ok b, t) => t.take (next b)
      | (.error e, t) => (.error e, t) := by
  have hbind : s.take (steps >>= next) =
      (ExceptT.bindCont next (s.take steps).1).run (s.take steps).2 := rfl
  rw [hbind]
  rcases s.take steps with ⟨b | e, t⟩ <;> rfl

/-- Steps change nothing, whether they fail or not. -/
def Silent (steps : ExceptT ε (StateM Session) α) : Prop :=
  ∀ s : Session, (s.take steps).2 = s

/-- Steps that change nothing, taken one after the other, change nothing. -/
theorem Silent.bind {steps : ExceptT ε (StateM Session) α}
    {next : α → ExceptT ε (StateM Session) β} (h : Silent steps) (hnext : ∀ b, Silent (next b)) :
    Silent (steps >>= next) := by
  intro s
  have hs := h s
  rw [take_bind]
  rcases hsteps : s.take steps with ⟨e | b, t⟩
  · rw [hsteps] at hs
    exact hs
  · rw [hsteps] at hs
    exact (hnext b t).trans hs

/-- A result that is there already changes nothing. -/
theorem silent_pure (b : α) : Silent (pure b : ExceptT ε (StateM Session) α) := fun _ => rfl

end Session

namespace Workspace

variable {w : Workspace} {place : List String}

/-- What is put at a place replaces what was put there before. -/
theorem put_put (d e : Entry) : (w.put place d).put place e = w.put place e := by
  simp [put, List.filter_filter]

/-- A text that is appended to a file comes after the content it was given. -/
theorem append_put (content text : String) :
    (w.put place (.text content)).append place text = w.put place (.text (content ++ text)) := by
  have hlookup : (w.put place (.text content)).entries.lookup place = some (.text content) := by
    simp [put]
  rw [append, hlookup]
  exact put_put _ _

end Workspace

/-! ## Steps of a command -/

namespace Command

open Session

variable {α : Type} {s : Session} {policy : Policy}

/-- A result that was worked out outside the session changes nothing in it. -/
theorem silent_settle (result : Except Fault α) :
    Silent (settle result : ExceptT Fault (StateM Session) α) := fun _ => rfl

/-- Reading a definition and building its automaton changes nothing, whether it fails or not. -/
theorem silent_loadAutomaton (path : String) : Silent (loadAutomaton host policy path) := by
  unfold loadAutomaton
  refine Silent.bind (fun _ => rfl) fun files => ?_
  exact Silent.bind (silent_settle _) fun d => silent_settle _

/-- Opens an output, and writes a text to it. -/
def deliver (file : Option String) (text : String) : ExceptT Fault (StateM Session) Unit :=
  openOutput host file >>= fun sink => write host sink text

/-- The file that a command puts its output in, if it is not for the standard output. -/
def outputFile : Command → Option String
  | compile _ _ file _ => file
  | draw _ file => file
  | inspect .. => none
  | touches _ => none

/-- A command works out its output, which changes nothing, before it opens any file. -/
theorem exists_silent_run (c : Command) (settings : Settings) (policy : Policy) :
    ∃ steps : ExceptT Fault (StateM Session) String,
      Silent steps ∧ c.run host settings policy = steps >>= deliver c.outputFile := by
  cases c with
  | compile definition format file maxStates =>
    refine ⟨do
      let nfa ← loadAutomaton host policy definition
      let made ←
        settle (nfa.determinize ((maxStates.map StateLimit.ofCount).getD settings.limit))
      pure ((format.getD settings.format).render made.1 (some made.2)), ?_, ?_⟩
    · refine (silent_loadAutomaton _).bind fun nfa => ?_
      exact (silent_settle _).bind fun made => silent_pure _
    · simp only [bind_assoc, pure_bind]
      rfl
  | draw definition file =>
    refine ⟨do
      let nfa ← loadAutomaton host policy definition
      pure (Graphviz.ofAutomaton nfa), ?_, ?_⟩
    · exact (silent_loadAutomaton _).bind fun nfa => silent_pure _
    · simp only [bind_assoc, pure_bind]
      rfl
  | inspect definition deterministic json =>
    refine ⟨do
      let nfa ← loadAutomaton host policy definition
      let a ← settle <|
        if deterministic then (nfa.determinize settings.limit).map Prod.fst else .ok nfa
      pure (if json then Listing.inspectionJson a.inspect
        else Listing.inspectionTable a.inspect), ?_, ?_⟩
    · refine (silent_loadAutomaton _).bind fun nfa => ?_
      exact (silent_settle _).bind fun a => silent_pure _
    · simp only [bind_assoc, pure_bind]
      rfl
  | touches encodings =>
    refine ⟨do
      let read ← settle (readTouches policy encodings)
      pure (Listing.touchTable read), ?_, ?_⟩
    · exact (silent_settle _).bind fun read => silent_pure _
    · simp only [bind_assoc, pure_bind]
      rfl

/-- Opening an output is opening the sink of the session, with the cause as a fault. -/
theorem take_openOutput (file : Option String) :
    s.take (openOutput host file) =
      ((s.openSink file).1.mapError Fault.file, (s.openSink file).2) :=
  rfl

/-- A file that cannot be opened is the fault, and the session stays as it was. -/
theorem take_openOutput_of_error {path : String} {cause : FileFault}
    (h : s.workspace.target path = .error cause) :
    s.take (openOutput host (some path)) = (.error (.file cause), s) := by
  have hsink : s.openSink (some path) = (.error cause, s) := by rw [openSink, h]
  rw [take_openOutput, hsink]
  rfl

/-- A file that can be opened is empty then. -/
theorem take_openOutput_of_ok {path : String} {place : List String}
    (h : s.workspace.target path = .ok place) :
    s.take (openOutput host (some path)) =
      (.ok (.file place), { s with workspace := s.workspace.put place (.text "") }) := by
  have hsink : s.openSink (some path) =
      (.ok (.file place), { s with workspace := s.workspace.put place (.text "") }) := by
    rw [openSink, h]
  rw [take_openOutput, hsink]
  rfl

/-- A text that is to go to the standard output is printed. One for a file becomes the content of
the file, or nothing is changed because the file cannot be opened. -/
theorem take_deliver (file : Option String) (text : String) :
    s.take (deliver file text) =
      match file with
      | none => (.ok (), { s with printed := s.printed ++ text })
      | some path =>
        match s.workspace.target path with
        | .ok place => (.ok (), { s with workspace := s.workspace.put place (.text text) })
        | .error cause => (.error (.file cause), s) := by
  rw [deliver, take_bind]
  cases file with
  | none => rfl
  | some path =>
    cases htarget : s.workspace.target path with
    | error cause =>
      rw [take_openOutput_of_error htarget]
      simp only [htarget]
    | ok place =>
      have hwrite : (s.workspace.put place (.text "")).append place text =
          s.workspace.put place (.text text) := by
        rw [Workspace.append_put, String.empty_append]
      rw [take_openOutput_of_ok htarget]
      simp only [htarget, ← hwrite]
      rfl

end Command

namespace Workspace

variable {w : Workspace} {settings : Settings} {i : Invocation} {fault : Fault}

/-- What it brings about to put a text out. -/
def delivered (w : Workspace) (file : Option String) (text : String) : Outcome :=
  match file with
  | none => ⟨none, text, w⟩
  | some path =>
    match w.target path with
    | .ok place => ⟨none, "", w.put place (.text text)⟩
    | .error cause => w.failed (.file cause)

/-- If a text cannot be put out, nothing was printed and no file was changed. -/
theorem delivered_of_fault {file : Option String} {text : String}
    (h : (w.delivered file text).fault = some fault) : w.delivered file text = w.failed fault := by
  cases file with
  | none => cases h
  | some path =>
    cases htarget : w.target path with
    | ok place => simp [delivered, htarget] at h
    | error cause =>
      simp only [delivered, htarget] at h ⊢
      rw [← Option.some.inj h]

/-- A command works out one text and puts it out, or it fails before that. -/
theorem exists_execute_eq (w : Workspace) (settings : Settings) (i : Invocation) :
    ∃ result : Except Fault String, w.execute settings i =
      match result with
      | .ok text => w.delivered i.command.outputFile text
      | .error fault => w.failed fault := by
  obtain ⟨steps, hsilent, hrun⟩ :=
    i.command.exists_silent_run settings (if i.strict then .strict else settings.policy)
  have hs := hsilent ⟨w, ""⟩
  refine ⟨(Session.take ⟨w, ""⟩ steps).1, ?_⟩
  rw [execute, Invocation.run, hrun, Session.take_bind]
  rcases hsteps : Session.take ⟨w, ""⟩ steps with ⟨fault | text, t⟩
  · rw [hsteps] at hs
    obtain rfl : t = ⟨w, ""⟩ := hs
    rfl
  · rw [hsteps] at hs
    obtain rfl : t = ⟨w, ""⟩ := hs
    simp only [Command.take_deliver, delivered]
    cases i.command.outputFile with
    | none => simp
    | some path => cases htarget : w.target path <;> simp [htarget, failed]

/-- A command that ends with a fault has printed nothing and leaves every file as it was. -/
theorem execute_of_fault (h : (w.execute settings i).fault = some fault) :
    (w.execute settings i).printed = "" ∧ (w.execute settings i).workspace = w := by
  obtain ⟨result, hresult⟩ := exists_execute_eq w settings i
  rw [hresult] at h ⊢
  cases result with
  | error cause => exact ⟨rfl, rfl⟩
  | ok text =>
    have hfailed : w.delivered i.command.outputFile text = w.failed fault := delivered_of_fault h
    simp only [hfailed]
    exact ⟨rfl, rfl⟩

/-- A definition, and what was made of an earlier one. -/
def compiledBefore : Workspace :=
  ⟨[(["tap.json"], .text "[1,[[\"D1\",1,2],[\"U1\",2,3]]]"), (["tap.dot"], .text "digraph")]⟩

/-- Asks for the definition to be compiled again, with at most two states. -/
def recompile : Invocation := ⟨none, false, .compile "tap.json" none (some "tap.dot") (some 2)⟩

/-- The limit is met in the middle of the determinization, and the earlier output stays. -/
theorem execute_of_fault_recompile :
    (compiledBefore.execute {} recompile).fault = some (.stateLimitExceeded 2) ∧
    (compiledBefore.execute {} recompile).printed = "" ∧
    (compiledBefore.execute {} recompile).workspace = compiledBefore := by
  have hfault : (compiledBefore.execute {} recompile).fault = some (.stateLimitExceeded 2) := by
    decide +kernel
  exact ⟨hfault, execute_of_fault hfault⟩

end Workspace

end TouchAutomata
