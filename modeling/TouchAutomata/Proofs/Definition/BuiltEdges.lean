import TouchAutomata.Definition.Basic
import TouchAutomata.Proofs.Automaton.AttainedSets
import TouchAutomata.Proofs.Automaton.Insertion

/-!
# The automaton of a definition

Whatever the policy, a definition that can be built gives the automaton to which its edges are
added in order (`build_eq_ok`). So an edge of the definition is kept with its triggers when it is
the first with its ends and its label (`mem_edges_build`).
-/

set_option autoImplicit false

namespace TouchAutomata

/-- A policy that accepts an encoding reads the same touch in it as any other. -/
theorem Touch.eq_ofEncoding_of_read {policy : Policy} {encoding : String} {t : Touch}
    (h : Touch.read policy encoding = .ok t) : t = Touch.ofEncoding encoding := by
  cases policy with
  | lenient => exact (Except.ok.inj h).symm
  | strict =>
    simp only [Touch.read] at h
    split at h
    · simp at h
    · split at h
      · simp at h
      · exact (Except.ok.inj h).symm

namespace DefinedEdge

/-- The label of the touch that is defined. -/
def label (x : DefinedEdge) : String := (Touch.ofEncoding x.symbol).label

/-- The edge that is defined. -/
def toEdge (x : DefinedEdge) : Edge :=
  ⟨x.source, x.target, (Touch.ofEncoding x.symbol).addTriggers x.triggers⟩

/-- The two have the same ends and the same label, though they may be written differently. -/
def Repeats (x y : DefinedEdge) : Prop :=
  x.source = y.source ∧ x.target = y.target ∧ x.label = y.label

instance (x y : DefinedEdge) : Decidable (x.Repeats y) := by unfold Repeats; infer_instance

/-- An edge that was made has the triggers of the definition, each of them once. -/
theorem mem_triggers_toEdge {x : DefinedEdge} {i : Int32} :
    i ∈ x.toEdge.touch.triggers ↔ i ∈ x.triggers := by
  have hnone : i ∉ (∅ : Triggers) := List.not_mem_nil
  rw [toEdge, Touch.triggers_addTriggers, OrderedSet.mem_insertAll]
  exact or_iff_left hnone

end DefinedEdge

namespace Definition

variable {d : Definition} {policy : Policy} {a : Automaton} {e : Edge} {x : DefinedEdge}

/-- An edge of the definition is the first with its ends and its label. -/
def Keeps (d : Definition) (x : DefinedEdge) : Prop :=
  d.edges.find? (fun y => y.Repeats x) = some x

instance (d : Definition) (x : DefinedEdge) : Decidable (d.Keeps x) := by
  unfold Keeps; infer_instance

/-- An edge that is not refused is added with the touch of its symbol. -/
theorem addEdge_eq_ok {b : Automaton} (h : addEdge policy a x = .ok b) : b = a.add x.toEdge := by
  rw [addEdge] at h
  cases hread : Touch.read policy x.symbol with
  | error fault => simp [hread, Except.map] at h
  | ok t =>
    obtain rfl := Touch.eq_ofEncoding_of_read hread
    rw [hread] at h
    exact (Except.ok.inj h).symm

/-- If none of the edges is refused, all are added in their order. -/
theorem foldlM_addEdge_eq_ok {xs : List DefinedEdge} {b : Automaton}
    (h : xs.foldlM (addEdge policy) a = .ok b) : b = a.addAll (xs.map DefinedEdge.toEdge) := by
  induction xs generalizing a with
  | nil => exact (Except.ok.inj h).symm
  | cons x xs ih =>
    rw [List.foldlM_cons] at h
    cases hx : addEdge policy a x with
    | error fault => simp [hx, bind, Except.bind] at h
    | ok c =>
      obtain rfl := addEdge_eq_ok hx
      exact ih (by simpa [hx, bind, Except.bind] using h)

/-- An automaton that is built has all edges of the definition, added in their order. -/
theorem build_eq_ok (h : d.build policy = .ok a) :
    a = d.blank.addAll (d.edges.map DefinedEdge.toEdge) :=
  foldlM_addEdge_eq_ok h

/-- The lenient policy refuses no definition, and all edges are added. -/
theorem build_lenient (d : Definition) :
    d.build .lenient = .ok (d.blank.addAll (d.edges.map DefinedEdge.toEdge)) := by
  have hfold : ∀ (xs : List DefinedEdge) b, xs.foldlM (addEdge .lenient) b =
      .ok (Automaton.addAll b (xs.map DefinedEdge.toEdge)) := by
    intro xs
    induction xs with
    | nil => exact fun _ => rfl
    | cons x xs ih => exact fun b => ih (b.add x.toEdge)
  exact hfold d.edges d.blank

/-- The automaton that the edges are added to has none. -/
theorem edges_blank (d : Definition) : d.blank.edges = [] := by
  unfold blank
  split <;> rfl

/-- The edges that are kept are the first with their ends and their label. -/
theorem mem_edges_build (h : d.build policy = .ok a) :
    e ∈ a.edges ↔ ∃ x, d.Keeps x ∧ x.toEdge = e := by
  rw [build_eq_ok h, Automaton.mem_edges_addAll_iff, edges_blank, List.find?_map,
    Option.map_eq_some_iff]
  constructor
  · rintro (he | ⟨-, x, hx, rfl⟩)
    · exact absurd he List.not_mem_nil
    · exact ⟨x, hx, rfl⟩
  · rintro ⟨x, hx, rfl⟩
    refine .inr ⟨?_, x, hx, rfl⟩
    rintro ⟨c, hc, -⟩
    exact List.not_mem_nil hc

/-- Every edge of a definition repeats one that is kept. -/
theorem exists_keeps (hx : x ∈ d.edges) : ∃ y, d.Keeps y ∧ y.Repeats x := by
  cases hfind : d.edges.find? (fun y => y.Repeats x) with
  | none => exact absurd (List.find?_eq_none.1 hfind x hx) (by simp [DefinedEdge.Repeats])
  | some y =>
    have hyx : y.Repeats x := by simpa using List.find?_some hfind
    have hsame : (fun z : DefinedEdge => decide (z.Repeats y)) = fun z => decide (z.Repeats x) := by
      funext z
      apply decide_eq_decide.2
      rw [DefinedEdge.Repeats, DefinedEdge.Repeats, hyx.1, hyx.2.1, hyx.2.2]
    exact ⟨y, by rw [Keeps, hsame, hfind], hyx⟩

/-- In the automaton of a definition a label leads where the edges of the definition lead. -/
theorem mem_afterLabel_build (h : d.build policy = .ok a) {S : StateSet} {l : String}
    {t : StateId} :
    t ∈ a.afterLabel S l ↔ ∃ x ∈ d.edges, x.source ∈ S ∧ x.label = l ∧ x.target = t := by
  rw [Automaton.mem_afterLabel]
  constructor
  · rintro ⟨e, he, hs, hl, ht⟩
    obtain ⟨x, hx, rfl⟩ := (mem_edges_build h).1 he
    exact ⟨x, List.mem_of_find?_eq_some hx, hs, hl, ht⟩
  · rintro ⟨x, hx, hs, rfl, rfl⟩
    obtain ⟨y, hy, hsource, htarget, hlabel⟩ := exists_keeps hx
    rw [← hsource] at hs
    exact ⟨y.toEdge, (mem_edges_build h).2 ⟨y, hy, rfl⟩, hs, hlabel, htarget⟩

end Definition

end TouchAutomata
