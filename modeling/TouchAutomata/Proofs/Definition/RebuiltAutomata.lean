import TouchAutomata.Proofs.Definition.BuiltEdges
import TouchAutomata.Proofs.Automaton.NestedEdges
import TouchAutomata.Proofs.Automaton.Renaming
import TouchAutomata.Proofs.Touch.Labels
import Mathlib.Data.Finset.Max

/-!
# Automata rebuilt from their definitions

The definition of an automaton names each edge by its label, and to build it reads the labels as
texts. A label without a colon at its end is read as it is; the colon at the end of another one is
lost, and the longest of these labels between two states is then missing. So the automaton that is
built is the same again exactly when no label ends in a colon (`build_ofAutomaton_iff`).
-/

set_option autoImplicit false

namespace TouchAutomata

/-- What is built from the definition of an edge. -/
def Edge.rebuilt (e : Edge) : Edge := (Definition.ofEdge e).toEdge

namespace Edge

variable {d e : Edge}

/-- A label that is read as a text loses a colon at its end, and nothing else. -/
theorem toList_label_rebuilt (e : Edge) :
    e.rebuilt.label.toList = Touch.trimColon e.label.toList := by
  show (Touch.ofEncoding e.label).label.toList = _
  exact Touch.toList_label_ofEncoding e.label

/-- An edge that is built again has the triggers it had. -/
theorem triggers_rebuilt (e : Edge) : e.rebuilt.touch.triggers = e.touch.triggers := by
  apply OrderedSet.ext_mem
  intro i
  exact DefinedEdge.mem_triggers_toEdge

/-- A label that does not end in a colon stays as it is. -/
theorem label_rebuilt (h : ¬ [':'] <:+ e.label.toList) : e.rebuilt.label = e.label := by
  rw [← String.toList_inj, toList_label_rebuilt, Touch.trimColon_of_not_suffix h]

/-- An edge whose label does not end in a colon looks as it did, its triggers included. -/
theorem outline_rebuilt (h : ¬ [':'] <:+ e.label.toList) : e.rebuilt.outline = e.outline := by
  rw [outline, outline, label_rebuilt h, triggers_rebuilt]
  rfl

/-- A label that ends in a colon is rebuilt only from a longer one that does so too. -/
theorem length_lt_of_label_rebuilt (h : d.rebuilt.label = e.label)
    (he : [':'] <:+ e.label.toList) :
    [':'] <:+ d.label.toList ∧ e.label.length < d.label.length := by
  rw [← h, toList_label_rebuilt] at he
  by_cases hd : [':'] <:+ d.label.toList
  · refine ⟨hd, ?_⟩
    obtain ⟨cs, hcs⟩ := hd
    have hlabel : e.label.toList = cs := by
      rw [← h, toList_label_rebuilt, ← hcs, Touch.trimColon_concat]
    rw [← String.length_toList, ← String.length_toList, hlabel, ← hcs]
    simp
  · rw [Touch.trimColon_of_not_suffix hd] at he
    exact absurd he hd

end Edge

/-- Automata that look the same have the same edges if triggers are left out. -/
theorem Automaton.map_triple_eq_of_outlines {a b : Automaton} (h : a.outlines = b.outlines) :
    a.edges.map Edge.triple = b.edges.map Edge.triple := by
  have hpart : ∀ c : Automaton, c.edges.map Edge.triple =
      c.outlines.map fun o => (o.1, o.2.1, o.2.2.1) := by
    intro c
    rw [Automaton.outlines, List.map_map]
    rfl
  rw [hpart a, hpart b, h]

namespace Definition

variable {a : Automaton} {e : Edge}

/-- The automaton that is built from the definition of an automaton. -/
def rebuilt (a : Automaton) : Automaton :=
  ((∅ : Automaton).withStart a.start).addAll (a.edges.map Edge.rebuilt)

/-- The definition of an automaton builds the automaton of its rebuilt edges. -/
theorem build_ofAutomaton (a : Automaton) : (ofAutomaton a).build .lenient = .ok (rebuilt a) := by
  rw [build_lenient, ofAutomaton, List.map_map]
  rfl

/-- The start state is built again as it was. -/
theorem start_rebuilt (a : Automaton) : (rebuilt a).start = a.start := by
  rw [rebuilt, Automaton.start_addAll, Automaton.start_withStart]

/-- Every edge of the rebuilt automaton was an edge of the old one. -/
theorem exists_of_mem_rebuilt (h : e ∈ (rebuilt a).edges) : ∃ d ∈ a.edges, d.rebuilt = e := by
  rcases Automaton.mem_edges_addAll_iff.1 h with hnone | ⟨-, hfind⟩
  · exact absurd hnone List.not_mem_nil
  · exact List.mem_map.1 (List.mem_of_find?_eq_some hfind)

/-- If no label ends in a colon, nothing but the text of the touches changes. -/
theorem outlines_rebuilt (h : ∀ e ∈ a.edges, ¬ [':'] <:+ e.label.toList) :
    (rebuilt a).outlines = a.outlines := by
  have horderly : Edge.Orderly (a.edges.map Edge.rebuilt) := by
    refine List.pairwise_map.2 (a.orderly.imp_of_mem fun {d e} hd he hde => ?_)
    refine ⟨hde.1, fun htwin => hde.2 ?_⟩
    refine ⟨htwin.1, htwin.2.1, ?_⟩
    rw [← Edge.label_rebuilt (h d hd), ← Edge.label_rebuilt (h e he)]
    exact htwin.2.2
  rw [Automaton.outlines, rebuilt, Automaton.edges_addAll_of_orderly, Automaton.edges_withStart]
  · show (List.map Edge.rebuilt a.edges).map Edge.outline = _
    rw [List.map_map]
    exact List.map_congr_left fun e he => Edge.outline_rebuilt (h e he)
  · exact horderly

/-- If some labels end in a colon, the longest of them is the label of no edge that is built. -/
theorem map_triple_rebuilt_ne (he : e ∈ a.edges) (hcolon : [':'] <:+ e.label.toList) :
    (rebuilt a).edges.map Edge.triple ≠ a.edges.map Edge.triple := by
  intro hsame
  let ending := (a.edges.filter fun e => [':'].isSuffixOf e.label.toList).toFinset
  have hending : ∀ d, d ∈ ending ↔ d ∈ a.edges ∧ [':'] <:+ d.label.toList := by
    simp [ending]
  obtain ⟨m, hm, hlongest⟩ :=
    ending.exists_max_image (fun d => d.label.length) ⟨e, (hending e).2 ⟨he, hcolon⟩⟩
  obtain ⟨hm, hmcolon⟩ := (hending m).1 hm
  have htriple : m.triple ∈ (rebuilt a).edges.map Edge.triple := by
    rw [hsame]
    exact List.mem_map_of_mem hm
  obtain ⟨f, hf, hfm⟩ := List.mem_map.1 htriple
  obtain ⟨d, hd, rfl⟩ := exists_of_mem_rebuilt hf
  have htwin := Edge.triple_eq_iff_twin.1 hfm
  obtain ⟨hdcolon, hlonger⟩ := Edge.length_lt_of_label_rebuilt htwin.2.2 hmcolon
  have hbound := hlongest d ((hending d).2 ⟨hd, hdcolon⟩)
  omega

/-- The rebuilt automaton equals the old one exactly if no label ends in a colon. -/
theorem alike_rebuilt_iff :
    (rebuilt a).alike a = true ↔ ∀ e ∈ a.edges, ¬ [':'] <:+ e.label.toList := by
  rw [Automaton.alike_iff, and_iff_right (start_rebuilt a)]
  constructor
  · intro hsame e he hcolon
    exact map_triple_rebuilt_ne he hcolon hsame
  · intro h
    exact Automaton.map_triple_eq_of_outlines (outlines_rebuilt h)

/-- The definition of an automaton can be built. It gives the same automaton exactly when no label
ends in a colon, and the same triggers with it. -/
theorem build_ofAutomaton_iff (a : Automaton) :
    ∃ b, (ofAutomaton a).build .lenient = .ok b ∧
      (b.alike a = true ↔ ∀ e ∈ a.edges, ¬ [':'] <:+ e.label.toList) ∧
      (b.alike a = true ↔ b.start = a.start ∧ b.outlines = a.outlines) := by
  refine ⟨rebuilt a, build_ofAutomaton a, alike_rebuilt_iff, ?_⟩
  constructor
  · intro halike
    exact ⟨start_rebuilt a, outlines_rebuilt (alike_rebuilt_iff.1 halike)⟩
  · rintro ⟨hstart, houtlines⟩
    exact Automaton.alike_iff.2 ⟨hstart, Automaton.map_triple_eq_of_outlines houtlines⟩

end Definition

end TouchAutomata
