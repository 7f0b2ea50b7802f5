import TouchAutomata.Definition.Basic
import TouchAutomata.Json.Reader
import TouchAutomata.Json.Writer
import TouchAutomata.Toml.Reader

/-!
# Definitions as documents

A definition is written as a record: the start state and the list of edges, each a record of
the touch, the two states and the triggers. The start state and the triggers may be missing,
and so may the list itself. Both JSON and TOML documents are read; JSON is written.
-/

set_option autoImplicit false

namespace TouchAutomata

/-- The formats in which documents are written. -/
inductive DocumentFormat where
  | toml
  | json
  deriving DecidableEq, Repr

/-- The data of a document. -/
def DocumentFormat.read : DocumentFormat → String → Option Data
  | toml => Toml.read
  | json => Json.read

/-- What a document may hold behind the fields of a record that it writes as a list. -/
def DocumentFormat.surplus : DocumentFormat → Data.Surplus
  | toml => Toml.surplus
  | json => Json.surplus

namespace DefinedEdge

/-- The names of the fields of an edge, in their order. -/
def fieldNames : List (List String) := [["symbol"], ["from"], ["to"], ["triggers"]]

/-- The data of an edge. -/
def toData (e : DefinedEdge) : Data :=
  .ofFields [("symbol", .ofText e.symbol), ("from", .ofWord e.source), ("to", .ofWord e.target),
    ("triggers", .list (e.triggers.map Data.ofSigned))]

/-- The edge that a piece of data describes. -/
def ofData? (surplus : Data.Surplus) (data : Data) : Option DefinedEdge :=
  match data.fields? surplus fieldNames with
  | some [some symbol, some source, some target, triggers] => do
    let symbol ← symbol.text?
    let source ← source.word?
    let target ← target.word?
    let triggers ←
      match triggers with
      | none => some []
      | some triggers => triggers.items?.bind fun items => items.mapM Data.signed?
    some { symbol, source, target, triggers }
  | _ => none

end DefinedEdge

namespace Definition

/-- The names of the fields of a definition, in their order. -/
def fieldNames : List (List String) := [["start_state"], ["transition", "transitions"]]

/-- The data of a definition. -/
def toData (d : Definition) : Data :=
  .ofFields [("start_state", (d.start.map Data.ofWord).getD .null),
    ("transition", .list (d.edges.map DefinedEdge.toData))]

/-- The start state that a field names. It may be missing or be null. -/
def startOfData? : Option Data → Option (Option StateId)
  | none => some none
  | some .null => some none
  | some data => data.word?.map some

/-- The edges that a field lists. It may be missing. -/
def edgesOfData? (surplus : Data.Surplus) : Option Data → Option (List DefinedEdge)
  | none => some []
  | some data => data.items?.bind fun items => items.mapM (DefinedEdge.ofData? surplus)

/-- The definition that a piece of data describes. As a list of fields it has the first. -/
def ofData? (surplus : Data.Surplus) (data : Data) : Option Definition :=
  match data, data.fields? surplus fieldNames with
  | .list [], _ => none
  | _, some [start, edges] => do
    let start ← startOfData? start
    let edges ← edgesOfData? surplus edges
    some { start, edges }
  | _, _ => none

/-- The definition that a document holds. -/
def parse (format : DocumentFormat) (text : String) : Option Definition :=
  (format.read text).bind (ofData? format.surplus)

/-- The JSON text of a definition, without blanks. -/
def toJson (d : Definition) : String := Json.render .compact d.toData

/-- The name of a text that comes from no file. -/
def anonymous : DocumentFormat → String
  | .toml => "unknown"
  | .json => "<json>"

/-- The definition that a text holds. -/
def ofText (format : DocumentFormat) (text : String) : Except Fault Definition :=
  match parse format text with
  | some d => .ok d
  | none => .error (.definition (anonymous format) .malformed)

end Definition

end TouchAutomata
