import TouchAutomata.CommandLine.Run

/-!
# The command line

The outer layer of the program: it fetches the files that an invocation names and the usual
settings files, and lets the library carry out the invocation on the operating system.
-/

set_option autoImplicit false

namespace TouchAutomata.Main

/-- The fault that the operating system reports. -/
def fileFault : IO.Error → FileFault
  | .noFileOrDirectory .. => .notFound
  | .noSuchThing .. => .notFound
  | .inappropriateType .. => .isDirectory
  | e => .other (toString e)

/-- The content of a file. -/
def fetch (path : String) : IO (Except FileFault String) := do
  try
    let bytes ← IO.FS.readBinFile path
    match String.fromUTF8? bytes with
    | some text => return .ok text
    | none => return .error .notUtf8
  catch e => return .error (fileFault e)

/-- The files that an invocation may read. -/
def inputs (home : Option String) (i : Invocation) : List String :=
  let settings := match i.settingsFile with
    | some path => [path]
    | none => Settings.usualPlaces home
  match i.command with
  | .compile definition .. | .draw definition .. | .inspect definition .. => definition :: settings
  | .touches _ => settings

/-- The view of files that were fetched. -/
def viewOf (fetched : List (String × Except FileFault String)) : FileView where
  readText path := (fetched.lookup path).getD (.error .notFound)
  has path :=
    match fetched.lookup path with
    | none | some (.error .notFound) | some (.error .notDirectory) => false
    | _ => true

/-- The operations of the operating system, with the files that were fetched. -/
def host (files : FileView) : Host IO where
  view := return files
  Sink := IO.FS.Stream
  openSink
    | none => return .ok (← IO.getStdout)
    | some path => do
      try
        return .ok (.ofHandle (← IO.FS.Handle.mk path .write))
      catch e => return .error (fileFault e)
  write sink text := sink.putStr text

/-- The answer to a command line that asks for no command. -/
def usageText : UsageFault → String
  | .versionRequested => versionText
  | _ => "Usage: gesture-dfa [--config FILE] [--strict] (compile | export | inspect | symbol) ...\n"

/-- The exit code for a command line that asks for no command. -/
def usageCode : UsageFault → UInt32
  | .versionRequested | .helpRequested => 0
  | _ => 2

/-- Reports a fault. -/
def report (fault : Fault) : IO UInt32 := do
  (← IO.getStderr).putStrLn ("Error: " ++ fault.message)
  return 1

/-- Carries out an invocation. -/
def perform (home : Option String) (i : Invocation) : IO UInt32 := do
  let fetched ← (inputs home i).mapM fun path => return (path, ← fetch path)
  let files := viewOf fetched
  match Settings.resolve files home i.settingsFile with
  | .error fault => report fault
  | .ok (settings, _) =>
    try
      match ← (i.run (host files) settings).run with
      | .error fault => report fault
      | .ok _ => return 0
    catch e => report (.file (fileFault e))

end TouchAutomata.Main

/-- The program. -/
def main (args : List String) : IO UInt32 := do
  let maxStates ← IO.getEnv "GESTURE_DFA_MAX_STATES"
  let home ← IO.getEnv "HOME"
  match TouchAutomata.Invocation.ofArguments maxStates args with
  | .ok i => TouchAutomata.Main.perform home i
  | .error fault =>
    (← IO.getStdout).putStr (TouchAutomata.Main.usageText fault)
    return TouchAutomata.Main.usageCode fault
