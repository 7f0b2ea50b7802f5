import TouchAutomata.Definition.Document
import TouchAutomata.Proofs.Json.WrittenData

/-!
# Definitions that were written

Each kind of value that a definition holds is read back from its data, and so are lists of them
(`mapM_map_of_reads`), edges (`DefinedEdge.ofData?_toData`) and definitions
(`Definition.ofData?_toData`). This data is plain, so that the JSON text of a definition is read as
this data and is a definition file for it (`ofText_toJson`).
-/

set_option autoImplicit false

namespace TouchAutomata

open Json (Plain)

variable {surplus : Data.Surplus}

/-! ## Values and lists -/

namespace Data

/-- A text is read back. -/
@[simp] theorem text?_ofText (s : String) : (ofText s).text? = some s := rfl

/-- A number of a state is read back. -/
@[simp] theorem word?_ofWord (w : UInt32) : (ofWord w).word? = some w := Numeral.word?_toNat w

/-- A trigger is read back, whatever its sign is. -/
@[simp] theorem signed?_ofSigned (n : Int32) : (ofSigned n).signed? = some n :=
  Numeral.signed?_toInt n

/-- The items of a list are read back in their order. -/
@[simp] theorem items?_list (items : List Data) : (list items).items? = some items := rfl

end Data

/-- If each value is read as something, a list of them is read as the list of these. -/
theorem mapM_map_of_reads {α β : Type} {write : α → Data} {read : Data → Option β} {f : α → β}
    (reads : ∀ x, read (write x) = some (f x)) (xs : List α) :
    (xs.map write).mapM read = some (xs.map f) := by
  induction xs with
  | nil => rfl
  | cons x xs ih => simp [reads, ih]

/-- If each value is read back, so is a list of them. -/
theorem mapM_map_of_reads_back {α : Type} {write : α → Data} {read : Data → Option α}
    (reads : ∀ x, read (write x) = some x) (xs : List α) : (xs.map write).mapM read = some xs := by
  have hmap : (xs.map write).mapM read = some (xs.map id) := mapM_map_of_reads reads xs
  rw [hmap, List.map_id]

/-! ## Edges -/

namespace DefinedEdge

/-- An edge is what its four fields say, wherever they stand. -/
theorem ofData?_of_fields {data : Data} {e : DefinedEdge}
    (h : data.fields? surplus fieldNames = some [some (.ofText e.symbol), some (.ofWord e.source),
      some (.ofWord e.target), some (.list (e.triggers.map Data.ofSigned))]) :
    ofData? surplus data = some e := by
  have htriggers := mapM_map_of_reads_back Data.signed?_ofSigned e.triggers
  simp [ofData?, h, htriggers]

/-- An edge is written without any number but integers. -/
theorem plain_toData (e : DefinedEdge) : Plain e.toData := by
  apply Plain.ofFields
  simp only [List.forall_mem_cons, List.not_mem_nil]
  exact ⟨Plain.ofText _, Plain.ofWord _, Plain.ofWord _, Plain.listMap Plain.ofSigned _, by simp⟩

/-- An edge that was written is read back. -/
theorem ofData?_toData (surplus : Data.Surplus) (e : DefinedEdge) :
    ofData? surplus e.toData = some e := by
  apply ofData?_of_fields
  simp [toData, Data.ofFields, Data.fields?, fieldNames, Data.isAdmissible, Data.field?]

end DefinedEdge

/-! ## Definitions -/

namespace Definition

/-- A definition is written without any number but integers. -/
theorem plain_toData (d : Definition) : Plain d.toData := by
  have hstart : Plain ((d.start.map Data.ofWord).getD .null) := by
    cases d.start with
    | none => exact Plain.null
    | some s => exact Plain.ofWord s
  apply Plain.ofFields
  simp only [List.forall_mem_cons, List.not_mem_nil]
  exact ⟨hstart, Plain.listMap DefinedEdge.plain_toData _, by simp⟩

/-- A start state that was not chosen is written as null. -/
theorem startOfData?_getD_null (start : Option StateId) :
    startOfData? (some ((start.map Data.ofWord).getD .null)) = some start := by
  cases start with
  | none => rfl
  | some s =>
    show (Data.ofWord s).word?.map some = some (some s)
    rw [Data.word?_ofWord, Option.map_some]

/-- Edges that were written are read back in their order. -/
theorem edgesOfData?_toData (surplus : Data.Surplus) (edges : List DefinedEdge) :
    edgesOfData? surplus (some (.list (edges.map DefinedEdge.toData))) = some edges :=
  mapM_map_of_reads_back (DefinedEdge.ofData?_toData surplus) edges

/-- A definition is what its two fields say, wherever they stand. -/
theorem ofData?_of_fields {data : Data} {start edges : Option Data} {d : Definition}
    (hrecord : data ≠ .list []) (hfields : data.fields? surplus fieldNames = some [start, edges])
    (hstart : startOfData? start = some d.start)
    (hedges : edgesOfData? surplus edges = some d.edges) : ofData? surplus data = some d := by
  -- the empty list is refused before its fields are looked at, so `hrecord` selects the case
  simp [ofData?, hfields, hstart, hedges]

/-- A definition that was written is read back. -/
theorem ofData?_toData (surplus : Data.Surplus) (d : Definition) :
    ofData? surplus d.toData = some d := by
  have hfields : d.toData.fields? surplus fieldNames =
      some [some ((d.start.map Data.ofWord).getD .null),
        some (.list (d.edges.map DefinedEdge.toData))] := by
    simp [toData, Data.ofFields, Data.fields?, fieldNames, Data.isAdmissible, Data.field?]
  exact ofData?_of_fields Data.noConfusion hfields (startOfData?_getD_null d.start)
    (edgesOfData?_toData surplus d.edges)

/-- The JSON text of a definition is read as the data of this definition. -/
theorem read_toJson (d : Definition) : Json.read d.toJson = some d.toData := by
  have hread : Json.read (String.ofList (Json.write .compact 0 d.toData ++ [])) = some d.toData :=
    Json.read_write (plain_toData d) (by simp)
  rwa [List.append_nil] at hread

/-- The JSON text of a definition is a definition file for it: whatever the start state, the texts,
the numbers and the order of the triggers are, it is read as the same definition. -/
theorem ofText_toJson (d : Definition) : ofText .json d.toJson = .ok d := by
  have hparse : parse .json d.toJson = some d := by
    rw [parse, DocumentFormat.read, read_toJson, Option.bind_some, ofData?_toData]
  rw [ofText, hparse]

end Definition

end TouchAutomata
