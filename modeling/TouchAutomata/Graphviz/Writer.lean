import TouchAutomata.Automaton.Basic

/-!
# Automata as Graphviz text

An automaton is drawn as a directed graph: one line opens it, each edge has a line of its own
with its label between quotes, and one line closes it. In a label a backslash and a quote have
a backslash before them.
-/

set_option autoImplicit false

namespace TouchAutomata.Graphviz

/-- The characters of a label as they stand between quotes. -/
def escape : List Char → List Char
  | [] => []
  | c :: cs => if c = '\\' ∨ c = '"' then '\\' :: c :: escape cs else c :: escape cs

/-- A label between quotes. -/
def quotedLabel (label : String) : String :=
  "\"" ++ String.ofList (escape label.toList) ++ "\""

/-- The line of an edge. -/
def statement (e : Edge) : String :=
  "\t" ++ toString e.source ++ " -> " ++ toString e.target ++
    " [label=" ++ quotedLabel e.label ++ "]\n"

/-- The line that opens a graph. -/
def opening : String := "digraph G \x7b\n"

/-- The line that closes a graph. -/
def closing : String := "\x7d\n"

/-- The drawing of an automaton. -/
def ofAutomaton (a : Automaton) : String :=
  opening ++ String.join (a.edges.map statement) ++ closing

end TouchAutomata.Graphviz
