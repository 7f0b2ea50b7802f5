import TouchAutomata.Fault
import TouchAutomata.Workspace.PathName

/-!
# The files a command can see

A workspace holds files and directories below one directory. Paths are followed component by
component, and each component but the last has to be a directory. What lies outside of the
workspace is not found. Reading changes nothing; writing changes the one file.
-/

set_option autoImplicit false

namespace TouchAutomata

/-- What stands at a place of a workspace. -/
inductive Entry where
  | text (content : String)
  /-- A file whose bytes are no UTF-8 text. -/
  | binary
  | directory
  deriving DecidableEq, Inhabited

/-- Files and directories by the components of their paths. A directory that has something in
it need not be listed. -/
structure Workspace where
  entries : List (List String × Entry)
  deriving DecidableEq, Inhabited

namespace Workspace

/-- What stands at a place. -/
def entry? (w : Workspace) (place : List String) : Option Entry :=
  if place = [] then some .directory
  else
    match w.entries.lookup place with
    | some entry => some entry
    | none => if w.entries.any fun e => place.isPrefixOf e.1 then some .directory else none

/-- Whether a name is too long for a file. -/
def isTooLong (name : String) : Bool := name.utf8ByteSize > 255

/-- Goes on from a place along components. -/
def walk (w : Workspace) : List String → List String → Except FileFault (List String)
  | place, [] => .ok place
  | place, name :: names =>
    match w.entry? place with
    | none => .error .notFound
    | some .directory =>
      if name = "." then walk w place names
      else if name = ".." then
        if place = [] then .error .notFound else walk w place.dropLast names
      else if isTooLong name then .error .nameTooLong
      else walk w (place ++ [name]) names
    | some _ => .error .notDirectory

/-- What is wrong with the text of a path, wherever it leads. -/
def checkPath (path : String) : Except FileFault Unit :=
  if path.toList.contains '\x00' then .error .nulInName
  else if path.utf8ByteSize ≥ 4096 then .error .nameTooLong
  else if path = "" ∨ PathName.isAbsolute path then .error .notFound
  else .ok ()

/-- What stands at the end of a path. A slash at the end asks for a directory. -/
def find (w : Workspace) (path : String) : Except FileFault Entry := do
  checkPath path
  let slash := if PathName.endsInSlash path then ["."] else []
  let place ← w.walk [] (PathName.components path ++ slash)
  match w.entry? place with
  | some entry => .ok entry
  | none => .error .notFound

/-- Whether something stands at the end of a path. -/
def has (w : Workspace) (path : String) : Bool :=
  match w.find path with
  | .ok _ => true
  | .error _ => false

/-- The content of a text file. -/
def readText (w : Workspace) (path : String) : Except FileFault String :=
  match w.find path with
  | .ok (.text content) => .ok content
  | .ok .binary => .error .notUtf8
  | .ok .directory => .error .isDirectory
  | .error fault => .error fault

/-- The place where a path lets a file be made or replaced. -/
def target (w : Workspace) (path : String) : Except FileFault (List String) := do
  checkPath path
  let names := PathName.components path
  let place ← w.walk [] names.dropLast
  let name := names.getLastD "."
  match w.entry? place with
  | none => .error .notFound
  | some .directory =>
    if PathName.endsInSlash path ∨ name = "." ∨ name = ".." then .error .isDirectory
    else if isTooLong name then .error .nameTooLong
    else if w.entry? (place ++ [name]) = some .directory then .error .isDirectory
    else .ok (place ++ [name])
  | some _ => .error .notDirectory

/-- Puts an entry at a place. -/
def put (w : Workspace) (place : List String) (entry : Entry) : Workspace :=
  ⟨(place, entry) :: w.entries.filter fun e => e.1 ≠ place⟩

/-- Writes a text behind the content of the text file at a place. -/
def append (w : Workspace) (place : List String) (text : String) : Workspace :=
  match w.entries.lookup place with
  | some (.text content) => w.put place (.text (content ++ text))
  | _ => w.put place (.text text)

end Workspace

end TouchAutomata
