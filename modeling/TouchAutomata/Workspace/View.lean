import TouchAutomata.Workspace.Basic

/-!
# Files as they are seen

Whoever only reads files needs no more of a workspace than what each path leads to.
-/

set_option autoImplicit false

namespace TouchAutomata

/-- What can be learned about files by their paths. -/
structure FileView where
  /-- The content of a text file. -/
  readText : String → Except FileFault String
  /-- Whether there is anything at a path. -/
  has : String → Bool

/-- The files of a workspace. -/
def Workspace.view (w : Workspace) : FileView where
  readText := w.readText
  has := w.has

end TouchAutomata
