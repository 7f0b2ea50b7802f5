import TouchAutomata.Definition.Document
import TouchAutomata.Workspace.View

/-!
# Definitions in files

The extension of a file tells the format of the definition in it. The file is read before its
extension is looked at, so a file that cannot be read is at fault for that.
-/

set_option autoImplicit false

namespace TouchAutomata

/-- The format that files with an extension have; capitals do not matter. -/
def DocumentFormat.ofPath? (path : String) : Option DocumentFormat :=
  match (PathName.extension? path).map PathName.lowerCase with
  | some "toml" => some .toml
  | some "json" => some .json
  | _ => none

/-- The definition in a file. -/
def Definition.load (files : FileView) (path : String) : Except Fault Definition :=
  match files.readText path with
  | .error cause => .error (.definition path (.unreadable cause))
  | .ok text =>
    match DocumentFormat.ofPath? path with
    | none => .error (.definition path .unsupportedExtension)
    | some format =>
      match Definition.parse format text with
      | some d => .ok d
      | none => .error (.definition path .malformed)

end TouchAutomata
