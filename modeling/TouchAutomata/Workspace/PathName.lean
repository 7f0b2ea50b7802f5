/-!
# Names of paths

A path is named by a text with slashes between its components; empty components do not count. The
extension of a path is what follows the last dot in its last component, if something stands
before that dot.
-/

set_option autoImplicit false

namespace TouchAutomata.PathName

/-- The text before the first slash, and the pieces after each slash. -/
def pieces : List Char → List Char × List (List Char)
  | [] => ([], [])
  | c :: cs =>
    if c = '/' then ([], (pieces cs).1 :: (pieces cs).2)
    else (c :: (pieces cs).1, (pieces cs).2)

/-- The components of a path that are not empty. -/
def components (path : String) : List String :=
  let (first, rest) := pieces path.toList
  ((first :: rest).filter fun p => p ≠ []).map String.ofList

/-- Whether a path begins at the root of the file system. -/
def isAbsolute (path : String) : Bool := path.toList.head? = some '/'

/-- Whether a path ends in a slash. -/
def endsInSlash (path : String) : Bool := path.toList.getLast? = some '/'

/-- The last component that is not a dot, unless it is two dots. -/
def fileName? (path : String) : Option String :=
  ((components path).filter fun c => c ≠ ".").getLast?.filter fun c => c ≠ ".."

/-- What follows the last dot of a file name that does not begin with this dot. -/
def extension? (path : String) : Option String :=
  (fileName? path).bind fun name =>
    let reversed := name.toList.reverse
    match reversed.span (· ≠ '.') with
    | (tail, _ :: _ :: _) => some (String.ofList tail.reverse)
    | _ => none

/-- A text with its ASCII capitals made small. -/
def lowerCase (s : String) : String := String.ofList (s.toList.map Char.toLower)

end TouchAutomata.PathName
