import TouchAutomata.Automaton.Basic

/-!
# Adding edges

An edge that has a twin in the automaton is not added, and its triggers are lost with it. Where
twins are equal nothing is lost (`mem_edges_addAll`); in general the first of several twins is
kept (`mem_edges_addAll_iff`). What leaves a state changes only by edges that leave this state
(`leaving_addAll`).
-/

set_option autoImplicit false

namespace TouchAutomata

/-- An edge is a twin of its twin. -/
theorem Edge.Twin.symm {d e : Edge} (h : d.Twin e) : e.Twin d := ⟨h.1.symm, h.2.1.symm, h.2.2.symm⟩

/-- Twins of one edge are twins of each other. -/
theorem Edge.Twin.trans {c d e : Edge} (hcd : c.Twin d) (hde : d.Twin e) : c.Twin e :=
  ⟨hcd.1.trans hde.1, hcd.2.1.trans hde.2.1, hcd.2.2.trans hde.2.2⟩

/-- An edge that fails a test does not change which edges pass it. -/
theorem Edge.filter_place {e : Edge} {p : Edge → Bool} {l : List Edge} (fails : p e = false) :
    (Edge.place e l).filter p = l.filter p := by
  induction l with
  | nil => simp [Edge.place, fails]
  | cons d l ih =>
    unfold Edge.place
    split
    · simp [fails]
    · rw [List.filter_cons, List.filter_cons, ih]

/-- An edge is put at the end if its ends come before those of no other. -/
theorem Edge.place_eq_append {e : Edge} {l : List Edge} (last : ∀ d ∈ l, ¬ e.Before d) :
    Edge.place e l = l ++ [e] := by
  induction l with
  | nil => rfl
  | cons d l ih =>
    unfold Edge.place
    rw [if_neg (last d (by simp)), ih fun c hc => last c (by simp [hc])]
    rfl

/-- To put an edge at its place is to add it somewhere. -/
theorem Edge.perm_place (e : Edge) (l : List Edge) : (Edge.place e l).Perm (e :: l) := by
  induction l with
  | nil => exact .refl [e]
  | cons d l ih =>
    unfold Edge.place
    split
    · exact .refl _
    · exact (ih.cons d).trans (.swap e d l)

namespace Automaton

variable {a : Automaton} {d e : Edge} {es : List Edge} {s : StateId}

/-- To add edges does not change the start state. -/
theorem start_addAll (es : List Edge) : (a.addAll es).start = a.start := by
  induction es generalizing a with
  | nil => rfl
  | cons e es ih => exact (ih (a := a.add e)).trans (start_add a e)

/-- An edge is added to the others if it has no twin but itself among them. -/
theorem mem_edges_add (only : ∀ c ∈ a.edges, c.Twin e → c = e) :
    d ∈ (a.add e).edges ↔ d ∈ a.edges ∨ d = e := by
  rw [edges_add]
  split
  · rename_i h
    obtain ⟨c, hc, htwin⟩ := h
    obtain rfl := only c hc htwin
    exact ⟨.inl, fun h => h.elim id fun h => h ▸ hc⟩
  · rw [Edge.mem_place, or_comm]

/-- Edges are added to the others if no two of all these are twins. -/
theorem mem_edges_addAll
    (only : ∀ c, c ∈ a.edges ∨ c ∈ es → ∀ e ∈ es, c.Twin e → c = e) :
    d ∈ (a.addAll es).edges ↔ d ∈ a.edges ∨ d ∈ es := by
  induction es generalizing a with
  | nil => simp [addAll]
  | cons e es ih =>
    have hadd : ∀ c, c ∈ (a.add e).edges ↔ c ∈ a.edges ∨ c = e := fun c =>
      mem_edges_add fun b hb => only b (.inl hb) e (by simp)
    have hstep : a.addAll (e :: es) = (a.add e).addAll es := rfl
    rw [hstep, ih, hadd, List.mem_cons, or_assoc]
    intro c hc b hb
    refine only c ?_ b (by simp [hb])
    rw [hadd] at hc
    rw [List.mem_cons, ← or_assoc]
    exact hc

/-- An edge is added unless it has a twin, and the others stay. -/
theorem mem_edges_add_iff :
    d ∈ (a.add e).edges ↔ d ∈ a.edges ∨ d = e ∧ ¬ ∃ c ∈ a.edges, c.Twin e := by
  rw [edges_add]
  split
  · rename_i h
    simp [h]
  · rename_i h
    rw [Edge.mem_place, or_comm, and_iff_left h]

/-- After an edge was added, it has a twin in the automaton, and so have those that had one. -/
theorem exists_twin_add :
    (∃ c ∈ (a.add e).edges, c.Twin d) ↔ (∃ c ∈ a.edges, c.Twin d) ∨ e.Twin d := by
  simp only [mem_edges_add_iff]
  constructor
  · rintro ⟨c, hc | ⟨rfl, -⟩, htwin⟩
    · exact .inl ⟨c, hc, htwin⟩
    · exact .inr htwin
  · rintro (⟨c, hc, htwin⟩ | htwin)
    · exact ⟨c, .inl hc, htwin⟩
    · by_cases h : ∃ c ∈ a.edges, c.Twin e
      · obtain ⟨c, hc, hce⟩ := h
        exact ⟨c, .inl hc, hce.trans htwin⟩
      · exact ⟨e, .inr ⟨rfl, h⟩, htwin⟩

/-- An edge has a twin among the edges of an automaton and those that are added to it, exactly when
it has one afterwards. -/
theorem exists_twin_addAll :
    (∃ c ∈ (a.addAll es).edges, c.Twin e) ↔
      (∃ c ∈ a.edges, c.Twin e) ∨ ∃ d ∈ es, d.Twin e := by
  induction es generalizing a with
  | nil => simp [addAll]
  | cons d es ih =>
    have hstep : a.addAll (d :: es) = (a.add d).addAll es := rfl
    rw [hstep, ih, exists_twin_add, or_assoc]
    simp only [List.mem_cons, or_and_right, exists_or, exists_eq_left]

/-- Of the edges that are added, those are kept that have no twin in the automaton and are the
first of their twins. -/
theorem mem_edges_addAll_iff :
    e ∈ (a.addAll es).edges ↔
      e ∈ a.edges ∨ (¬ ∃ c ∈ a.edges, c.Twin e) ∧ es.find? (fun d => d.Twin e) = some e := by
  induction es generalizing a with
  | nil => simp [addAll]
  | cons c es ih =>
    have hstep : a.addAll (c :: es) = (a.add c).addAll es := rfl
    rw [hstep, ih, exists_twin_add, mem_edges_add_iff, List.find?_cons]
    by_cases htwin : c.Twin e
    · rw [decide_eq_true htwin]
      simp only [htwin, or_true, not_true_eq_false, false_and, or_false, Option.some.injEq]
      constructor
      · rintro (he | ⟨rfl, hnew⟩)
        · exact .inl he
        · exact .inr ⟨hnew, rfl⟩
      · rintro (he | ⟨hnew, rfl⟩)
        · exact .inl he
        · exact .inr ⟨rfl, hnew⟩
    · have hne : e ≠ c := by
        rintro rfl
        exact htwin ⟨rfl, rfl, rfl⟩
      rw [decide_eq_false htwin]
      simp [htwin, hne]

/-- Of edges no two of which are twins, all are kept. -/
theorem perm_edges_addAll (lone : (a.edges ++ es).Pairwise fun d e => ¬ d.Twin e) :
    (a.addAll es).edges.Perm (a.edges ++ es) := by
  induction es generalizing a with
  | nil => simp [addAll]
  | cons e es ih =>
    have hnew : ¬ ∃ d ∈ a.edges, d.Twin e := by
      rintro ⟨d, hd, htwin⟩
      exact (List.pairwise_append.1 lone).2.2 d hd e (List.mem_cons_self ..) htwin
    have hedges : (a.add e).edges = Edge.place e a.edges := by rw [edges_add, if_neg hnew]
    have hperm : ((a.add e).edges ++ es).Perm (a.edges ++ e :: es) := by
      rw [hedges]
      exact ((Edge.perm_place e a.edges).append_right es).trans List.perm_middle.symm
    have hsymm : ∀ {c d : Edge}, ¬ c.Twin d → ¬ d.Twin c := fun hcd hdc => hcd hdc.symm
    have hstep : a.addAll (e :: es) = (a.add e).addAll es := rfl
    rw [hstep]
    exact (ih ((hperm.pairwise_iff hsymm).2 lone)).trans hperm

/-- Edges that are in order already are kept as they are. -/
theorem edges_addAll_of_orderly (h : Edge.Orderly (a.edges ++ es)) :
    (a.addAll es).edges = a.edges ++ es := by
  induction es generalizing a with
  | nil => simp [addAll]
  | cons e es ih =>
    have hearlier : ∀ d ∈ a.edges, ¬ e.Before d ∧ ¬ d.Twin e := fun d hd =>
      (List.pairwise_append.1 h).2.2 d hd e (List.mem_cons_self ..)
    have hnew : ¬ ∃ d ∈ a.edges, d.Twin e := fun ⟨d, hd, htwin⟩ => (hearlier d hd).2 htwin
    have hedges : (a.add e).edges = a.edges ++ [e] := by
      rw [edges_add, if_neg hnew, Edge.place_eq_append fun d hd => (hearlier d hd).1]
    have hstep : a.addAll (e :: es) = (a.add e).addAll es := rfl
    rw [List.append_cons, ← hedges] at h
    rw [hstep, ih h, hedges, ← List.append_cons]

/-- A state stays a state when edges are added. -/
theorem hasState_addAll (hs : a.hasState s = true) : (a.addAll es).hasState s = true := by
  obtain ⟨e, he, hends⟩ := mem_states.1 (hasState_iff.1 hs)
  exact hasState_iff.2 (mem_states.2 ⟨e, mem_edges_addAll_iff.2 (.inl he), hends⟩)

/-- An edge from another state does not change what leaves a state. -/
theorem leaving_add (other : e.source ≠ s) : (a.add e).leaving s = a.leaving s := by
  rw [leaving, leaving, edges_add]
  split
  · rfl
  · exact Edge.filter_place (decide_eq_false other)

/-- Edges that leave other states do not change what leaves a state. -/
theorem leaving_addAll (others : ∀ e ∈ es, e.source ≠ s) :
    (a.addAll es).leaving s = a.leaving s := by
  induction es generalizing a with
  | nil => rfl
  | cons e es ih =>
    have hstep : a.addAll (e :: es) = (a.add e).addAll es := rfl
    rw [hstep, ih fun d hd => others d (List.mem_cons_of_mem e hd),
      leaving_add (others e (List.mem_cons_self ..))]

end Automaton

end TouchAutomata
