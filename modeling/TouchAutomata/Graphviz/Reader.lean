import TouchAutomata.Graphviz.Writer

/-!
# Reading Graphviz text back

A reader for the graphs that the writer draws: an opening line, statements with two states and
a quoted label, and a closing line. In a label a backslash stands before a backslash or a quote
and nowhere else, so the first quote without one ends the label.
-/

set_option autoImplicit false

namespace TouchAutomata.Graphviz

/-- What a statement tells of an edge. -/
structure Arrow where
  source : StateId
  target : StateId
  label : String
  deriving DecidableEq

/-- What the drawing shows of an edge. -/
def Arrow.ofEdge (e : Edge) : Arrow := ⟨e.source, e.target, e.label⟩

/-- The text after an expected piece. -/
def skip : List Char → List Char → Option (List Char)
  | [], cs => some cs
  | p :: ps, c :: cs => if p = c then skip ps cs else none
  | _ :: _, [] => none

/-- The characters of a label up to its closing quote. -/
def unescape : List Char → Option (List Char × List Char)
  | [] => none
  | c :: cs =>
    if c = '"' then some ([], cs)
    else if c = '\\' then
      match cs with
      | d :: cs =>
        if d = '\\' ∨ d = '"' then (unescape cs).map fun (label, rest) => (d :: label, rest)
        else none
      | [] => none
    else (unescape cs).map fun (label, rest) => (c :: label, rest)

/-- The identifier of a state. -/
def readState (cs : List Char) : Option (StateId × List Char) := do
  let (digits, rest) := cs.span Char.isDigit
  let n ← Numeral.readNat digits
  let state ← Numeral.word? n
  some (state, rest)

/-- One statement. -/
def readArrow (cs : List Char) : Option (Arrow × List Char) := do
  let cs ← skip ['\t'] cs
  let (source, cs) ← readState cs
  let cs ← skip " -> ".toList cs
  let (target, cs) ← readState cs
  let cs ← skip " [label=\"".toList cs
  let (label, cs) ← unescape cs
  let cs ← skip "]\n".toList cs
  some (⟨source, target, String.ofList label⟩, cs)

/-- The statements up to the closing line. The number bounds them; the length of the text is
always enough. -/
def readArrows : Nat → List Char → Option (List Arrow)
  | 0, _ => none
  | count + 1, cs =>
    if cs = closing.toList then some []
    else
      match readArrow cs with
      | none => none
      | some (arrow, rest) => (readArrows count rest).map (arrow :: ·)

/-- The statements of a drawing. -/
def read (text : String) : Option (List Arrow) :=
  (skip opening.toList text.toList).bind fun cs => readArrows (cs.length + 1) cs

end TouchAutomata.Graphviz
