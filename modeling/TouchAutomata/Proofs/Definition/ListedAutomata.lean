import TouchAutomata.Listing.Json
import TouchAutomata.Proofs.Definition.WrittenDefinitions

/-!
# Listed automata as definitions

The JSON document of an automaton has the fields of a definition, under the same names or under the
second one that is allowed, and fields that no definition has. The latter are readable, so they do
not matter, and the document is a definition file for the automaton in it (`ofText_automatonJson`).
-/

set_option autoImplicit false

namespace TouchAutomata

open Json (Plain)

/-! ## What is written is plain -/

namespace Listing

/-- A list of states is written without any number but integers. -/
theorem plain_statesData (states : List StateId) : Plain (statesData states) :=
  Plain.listMap Plain.ofWord states

/-- An edge is written without any number but integers. -/
theorem plain_edgeData (e : Edge) : Plain (edgeData e) := by
  apply Plain.ofFields
  simp only [List.forall_mem_cons, List.not_mem_nil]
  exact ⟨Plain.ofWord _, Plain.ofText _, Plain.ofWord _, Plain.listMap Plain.ofSigned _, by simp⟩

/-- The sets of a report, or their absence, are written without any number but integers. -/
theorem plain_setsData (report : Option DeterminizationReport) : Plain (setsData report) := by
  cases report with
  | none => exact Plain.null
  | some report =>
    apply Plain.ofFields
    intro field hfield
    obtain ⟨e, -, rfl⟩ := List.mem_map.mp hfield
    exact plain_statesData _

/-- The summary of an automaton is written without any number but integers. -/
theorem plain_summaryData (a : Automaton) : Plain (summaryData a) := by
  apply Plain.ofFields
  simp only [List.forall_mem_cons, List.not_mem_nil]
  exact ⟨plain_statesData _, Plain.ofNat _, Plain.ofNat _, by simp⟩

/-- An automaton is written without any number but integers, with or without a report. -/
theorem plain_automatonData (a : Automaton) (report : Option DeterminizationReport) :
    Plain (automatonData a report) := by
  apply Plain.ofFields
  simp only [List.forall_mem_cons, List.not_mem_nil]
  exact ⟨Plain.ofWord _, plain_setsData _, plain_summaryData _, Plain.listMap plain_edgeData _,
    by simp⟩

end Listing

/-! ## What is read is the definition -/

namespace Definition

/-- What was written for an edge is read as this edge, and its further fields are passed over. -/
theorem ofData?_edgeData (surplus : Data.Surplus) (e : Edge) :
    DefinedEdge.ofData? surplus (Listing.edgeData e) = some (ofEdge e) := by
  apply DefinedEdge.ofData?_of_fields
  simp [Listing.edgeData, Data.ofFields, Data.fields?, DefinedEdge.fieldNames, Data.isAdmissible,
    Data.field?, ofEdge]

/-- What was written for an automaton is read as its definition, and the summary and the sets beside
it are passed over. -/
theorem ofData?_automatonData (surplus : Data.Surplus) (a : Automaton)
    (report : Option DeterminizationReport) :
    ofData? surplus (Listing.automatonData a report) = some (ofAutomaton a) := by
  have hsets := (Listing.plain_setsData report).isReadable
  have hsummary := (Listing.plain_summaryData a).isReadable
  have hedges := mapM_map_of_reads (ofData?_edgeData surplus) a.edges
  have hfields : (Listing.automatonData a report).fields? surplus fieldNames =
      some [some (.ofWord a.start), some (.list (a.edges.map Listing.edgeData))] := by
    simp [Listing.automatonData, Data.ofFields, Data.fields?, fieldNames, Data.isAdmissible,
      Data.field?, hsets, hsummary]
  exact ofData?_of_fields Data.noConfusion hfields (startOfData?_getD_null (some a.start)) hedges

/-- The JSON document of an automaton is a definition file for it: it is read as the definition of
the automaton, whether or not it reports a determinization. -/
theorem ofText_automatonJson (a : Automaton) (report : Option DeterminizationReport) :
    ofText .json (Listing.automatonJson a report) = .ok (ofAutomaton a) := by
  have htext : Listing.automatonJson a report =
      String.ofList (Json.write .indented 0 (Listing.automatonData a report) ++ ['\n']) := by
    rw [String.ofList_append]
    rfl
  have hread : Json.read (Listing.automatonJson a report) =
      some (Listing.automatonData a report) := by
    rw [htext]
    exact Json.read_write (Listing.plain_automatonData a report) (by simp [Json.isBlank])
  simp [ofText, parse, DocumentFormat.read, hread, ofData?_automatonData]

end Definition

end TouchAutomata
