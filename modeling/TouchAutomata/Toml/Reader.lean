import TouchAutomata.Toml.Scalar
import TouchAutomata.Toml.Table

/-!
# Reading TOML

A document is a sequence of statements, each on a line of its own: a header of a table, a
header of an element of a list of tables, or a key with a value. Values may span lines inside
brackets and braces. The statements are read first and then carried out in order. Keys may not
have too many parts and values may not be nested too deeply. Loops over the text have a number
that bounds their calls; twice the length of the text is always enough, since of two calls in a
row one takes a character.
-/

set_option autoImplicit false

namespace TouchAutomata.Toml

/-- The text after leading blanks. -/
def skipBlanks (cs : List Char) : List Char := cs.dropWhile isBlank

/-- The text after blanks, line ends and comments; the flag says whether a comment has begun. -/
def skipLines : Bool → List Char → Option (List Char)
  | _, [] => some []
  | inComment, c :: cs =>
    if c = '\n' then skipLines false cs
    else if c = '\r' then if atLineFeed cs then skipLines false cs else none
    else if inComment then if isControl c then none else skipLines true cs
    else if isBlank c then skipLines false cs
    else if c = '#' then skipLines true cs
    else some (c :: cs)

/-- The text from the end of the line on, which has nothing but blanks and a comment before
it; the flag says whether the comment has begun. -/
def endLine : Bool → List Char → Option (List Char)
  | _, [] => some []
  | inComment, c :: cs =>
    if c = '\n' then some (c :: cs)
    else if c = '\r' then if atLineFeed cs then some (c :: cs) else none
    else if inComment then if isControl c then none else endLine true cs
    else if isBlank c then endLine false cs
    else if c = '#' then endLine true cs
    else none

/-- The characters of a key that is not quoted. -/
def isKeyChar (c : Char) : Bool := c.isAlphanum || c = '_' || c = '-'

/-- One key, quoted or not. -/
def readKey : List Char → Option (String × List Char)
  | '"' :: cs => (readBasic .outside cs).map fun (key, rest) => (String.ofList key, rest)
  | '\'' :: cs => (readLiteral cs).map fun (key, rest) => (String.ofList key, rest)
  | cs =>
    match cs.span isKeyChar with
    | ([], _) => none
    | (key, rest) => some (String.ofList key, rest)

/-- At most so many keys with dots between them, and the text after the blanks that follow. -/
def readKeys : Nat → List Char → Option (List String × List Char)
  | 0, _ => none
  | limit + 1, cs =>
    match readKey (skipBlanks cs) with
    | none => none
    | some (key, rest) =>
      match skipBlanks rest with
      | '.' :: rest => (readKeys limit rest).map fun (path, rest) => (key :: path, rest)
      | rest => some ([key], rest)

/-- How many keys may be joined by dots. -/
def maxKeys : Nat := 80

/-- The path that keys joined by dots describe. -/
def readPath (cs : List Char) : Option (List String × List Char) := readKeys maxKeys cs

/-- The path before an equals sign, and the text of the value behind it. Inside braces the sign
may stand on a line of its own. -/
def readAssignment (cs : List Char) : Option (List String × List Char) :=
  match readPath cs with
  | none => none
  | some (path, rest) =>
    match skipLines false rest with
    | some ('=' :: rest) => (skipLines false rest).map fun rest => (path, rest)
    | _ => none

/-- How deep lists and inline tables may be nested. -/
def maxDepth : Nat := 80

mutual

/-- A value. -/
def readValue : Nat → Nat → List Char → Option (Data × List Char)
  | 0, _, _ => none
  | _, _, [] => none
  | calls + 1, depth, c :: cs =>
    if c = '"' ∨ c = '\'' then
      (readString (c :: cs)).map fun (text, rest) => (.ofText (String.ofList text), rest)
    else if c = '[' then
      if depth = 0 then none
      else (readItems calls (depth - 1) cs).map fun (items, rest) => (.list items, rest)
    else if c = '\x7b' then
      if depth = 0 then none
      else
        match readPairs calls (depth - 1) cs with
        | none => none
        | some (pairs, rest) =>
          (Fields.ofAssignments pairs).map fun fields => (fields.toData, rest)
    else readScalar (c :: cs)

/-- The items of a list up to its closing bracket. -/
def readItems : Nat → Nat → List Char → Option (List Data × List Char)
  | 0, _, _ => none
  | calls + 1, depth, cs =>
    match skipLines false cs with
    | none => none
    | some (']' :: rest) => some ([], rest)
    | some cs =>
      match readValue calls depth cs with
      | none => none
      | some (item, rest) =>
        match skipLines false rest with
        | some (',' :: rest) =>
          (readItems calls depth rest).map fun (items, rest) => (item :: items, rest)
        | some (']' :: rest) => some ([item], rest)
        | _ => none

/-- The keys and values of an inline table up to its closing brace. -/
def readPairs : Nat → Nat → List Char → Option (List (List String × Data) × List Char)
  | 0, _, _ => none
  | calls + 1, depth, cs =>
    match skipLines false cs with
    | none => none
    | some ('\x7d' :: rest) => some ([], rest)
    | some cs =>
      match readAssignment cs with
      | none => none
      | some (path, rest) =>
        match readValue calls depth rest with
        | none => none
        | some (value, rest) =>
          match skipLines false rest with
          | some (',' :: rest) =>
            (readPairs calls depth rest).map fun (pairs, rest) => ((path, value) :: pairs, rest)
          | some ('\x7d' :: rest) => some ([(path, value)], rest)
          | _ => none

end

/-- One statement of a document. -/
inductive Statement where
  /-- What follows belongs to the table at this path. -/
  | table (path : List String)
  /-- What follows belongs to a new element of the list of tables at this path. -/
  | element (path : List String)
  | pair (path : List String) (value : Data)

/-- One statement at the beginning of a text. -/
def readStatement (calls : Nat) : List Char → Option (Statement × List Char)
  | '[' :: '[' :: cs =>
    match readPath cs with
    | some (path, ']' :: ']' :: rest) => some (.element path, rest)
    | _ => none
  | '[' :: cs =>
    match readPath cs with
    | some (path, ']' :: rest) => some (.table path, rest)
    | _ => none
  | cs =>
    match readPath cs with
    | some (path, '=' :: rest) =>
      (readValue calls maxDepth (skipBlanks rest)).map fun (value, rest) =>
        (.pair path value, rest)
    | _ => none

/-- All statements of a text. -/
def readStatements : Nat → List Char → Option (List Statement)
  | 0, _ => none
  | calls + 1, cs =>
    match skipLines false cs with
    | none => none
    | some [] => some []
    | some cs =>
      match readStatement calls cs with
      | none => none
      | some (statement, rest) =>
        match endLine false rest with
        | none => none
        | some rest => (readStatements calls rest).map (statement :: ·)

/-- A document in the making: its tables, and the path of the latest header. -/
structure Draft where
  fields : Fields
  header : List String

/-- Carries out a statement. -/
def Draft.apply (draft : Draft) : Statement → Option Draft
  | .table path =>
    (Fields.within path.dropLast (Fields.openTable (path.getLastD "")) draft.fields).map
      (⟨·, path⟩)
  | .element path =>
    (Fields.within path.dropLast (Fields.openElement (path.getLastD "")) draft.fields).map
      (⟨·, path⟩)
  | .pair path value =>
    (Fields.within draft.header (Fields.assign value path) draft.fields).map (⟨·, draft.header⟩)

/-- The text without a byte order mark before it. -/
def dropByteOrderMark : List Char → List Char
  | c :: cs => if c = '\ufeff' then cs else c :: cs
  | [] => []

/-- A list that stands for a record may hold more than its fields. -/
def surplus : Data.Surplus := .unseen

/-- The record of a TOML document. -/
def read (text : String) : Option Data := do
  let cs := dropByteOrderMark text.toList
  let statements ← readStatements (2 * cs.length + 2) cs
  let draft ← statements.foldlM Draft.apply ⟨[], []⟩
  some draft.fields.toData

end TouchAutomata.Toml
