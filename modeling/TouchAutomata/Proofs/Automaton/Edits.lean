import TouchAutomata.Proofs.Automaton.Insertion
import TouchAutomata.Proofs.Automaton.NestedEdges
import TouchAutomata.Proofs.Automaton.Runs
import Mathlib.Data.Finset.Card

/-!
# Automata by the edges that were inserted

An automaton is made by a series of edits. What it holds afterwards is told by the edges that were
inserted alone: of those with the same ends and the same label the first, in the order of the ends,
and in the order of insertion between the same ends. This is an invariant of insertion
(`pairwise_inserted_addAll`); every question to the automaton is answered accordingly
(`edited_collects`).
-/

set_option autoImplicit false

namespace TouchAutomata

namespace Edge

variable {c d e : Edge} {es l : List Edge}

/-- Where the first edge stands that has the ends and the label of an edge. -/
def firstIndex (es : List Edge) (e : Edge) : Nat := es.findIdx fun d => d.Twin e

/-- The ends of `d` come before those of `e`, or their ends are the same and `d` is inserted
first. -/
def InsertedBefore (es : List Edge) (d e : Edge) : Prop :=
  d.Before e ∨ (d.source = e.source ∧ d.target = e.target) ∧ firstIndex es d < firstIndex es e

/-- What comes before an edge also comes before those that do not come before this edge. -/
theorem Before.of_not_before (hec : e.Before c) (hdc : ¬ d.Before c) : e.Before d := by
  unfold Before at *
  simp only [UInt32.lt_iff_toNat_lt, ← UInt32.toNat_inj] at *
  omega

/-- Two edges of which neither comes before the other have the same ends. -/
theorem same_ends_of_not_before (hde : ¬ d.Before e) (hed : ¬ e.Before d) :
    d.source = e.source ∧ d.target = e.target := by
  unfold Before at *
  simp only [UInt32.lt_iff_toNat_lt, ← UInt32.toNat_inj] at *
  omega

/-- What holds between edges in their order still holds when an edge was put at its place. -/
theorem pairwise_place {R : Edge → Edge → Prop} (orderly : Orderly l) (h : l.Pairwise R)
    (behind : ∀ d ∈ l, e.Before d → R e d) (ahead : ∀ d ∈ l, ¬ e.Before d → R d e) :
    (place e l).Pairwise R := by
  induction l with
  | nil => exact List.pairwise_singleton R e
  | cons c l ih =>
    obtain ⟨hc, hl⟩ := List.pairwise_cons.1 h
    obtain ⟨hfirst, hrest⟩ := List.pairwise_cons.1 orderly
    unfold place
    split
    · rename_i hec
      apply List.pairwise_cons.2 ⟨_, h⟩
      intro d hd
      apply behind d hd
      rcases List.mem_cons.1 hd with rfl | hd
      · exact hec
      · exact hec.of_not_before (hfirst d hd).1
    · rename_i hec
      apply List.pairwise_cons.2 ⟨_, ih hrest hl _ _⟩
      · intro d hd
        rcases mem_place.1 hd with rfl | hd
        · exact ahead c (by simp) hec
        · exact hc d hd
      · exact fun d hd => behind d (by simp [hd])
      · exact fun d hd => ahead d (by simp [hd])

/-- Later insertions do not change where the first of the twins stands. -/
theorem firstIndex_append (h : ∃ d ∈ es, d.Twin e) (l : List Edge) :
    firstIndex (es ++ l) e = firstIndex es e := by
  have hlt : firstIndex es e < es.length := List.findIdx_lt_length.2 (by simpa using h)
  unfold firstIndex at *
  rw [List.findIdx_append, if_pos hlt]

/-- An edge without a twin stands where it was inserted. -/
theorem firstIndex_concat_self (h : ¬ ∃ d ∈ es, d.Twin e) :
    firstIndex (es ++ [e]) e = es.length := by
  have hlength : firstIndex es e = es.length := List.findIdx_eq_length.2 (by simpa using h)
  unfold firstIndex at *
  rw [List.findIdx_append, hlength, if_neg (Nat.lt_irrefl _)]
  simp [Twin]

/-- Later insertions do not change the order of edges that are there. -/
theorem InsertedBefore.append (hde : InsertedBefore es d e) (hd : ∃ c ∈ es, c.Twin d)
    (he : ∃ c ∈ es, c.Twin e) (l : List Edge) : InsertedBefore (es ++ l) d e := by
  unfold InsertedBefore at *
  rw [firstIndex_append hd, firstIndex_append he]
  exact hde

end Edge

namespace Automaton

variable {a b : Automaton} {d e : Edge} {es : List Edge} {s t : StateId} {l : String}

/-! ## Edges added one after the other -/

/-- The last of several edges is added to the others. -/
theorem addAll_concat (a : Automaton) (es : List Edge) (e : Edge) :
    a.addAll (es ++ [e]) = (a.addAll es).add e := by
  simp [addAll]

/-- What becomes of the edges does not depend on the start state. -/
theorem edges_addAll_congr (h : a.edges = b.edges) (es : List Edge) :
    (a.addAll es).edges = (b.addAll es).edges := by
  induction es generalizing a b with
  | nil => exact h
  | cons e es ih =>
    apply ih
    rw [edges_add, edges_add, h]

/-- The edges kept are the first with their ends and their label. -/
theorem mem_addAll_empty : e ∈ ((∅ : Automaton).addAll es).edges ↔
    es.find? (fun d => d.Twin e) = some e := by
  rw [mem_edges_addAll_iff]
  constructor
  · rintro (h | ⟨-, h⟩)
    · exact absurd h List.not_mem_nil
    · exact h
  · intro h
    refine .inr ⟨?_, h⟩
    rintro ⟨c, hc, -⟩
    exact List.not_mem_nil hc

/-- An edge has a twin in the automaton exactly when it has one among those inserted. -/
theorem exists_twin_addAll_empty :
    (∃ c ∈ ((∅ : Automaton).addAll es).edges, c.Twin e) ↔ ∃ d ∈ es, d.Twin e := by
  rw [exists_twin_addAll]
  apply or_iff_right
  rintro ⟨c, hc, -⟩
  exact List.not_mem_nil hc

/-- What is asked of an edge by its ends and its label can be asked of those inserted. -/
theorem exists_mem_addAll_empty (p : StateId × StateId × String → Prop) :
    (∃ e ∈ ((∅ : Automaton).addAll es).edges, p e.triple) ↔ ∃ e ∈ es, p e.triple := by
  constructor
  · rintro ⟨e, he, hp⟩
    exact ⟨e, List.mem_of_find?_eq_some (mem_addAll_empty.1 he), hp⟩
  · rintro ⟨e, he, hp⟩
    obtain ⟨c, hc, htwin⟩ := exists_twin_addAll_empty.2 ⟨e, he, rfl, rfl, rfl⟩
    rw [← Edge.triple_eq_iff_twin.2 htwin] at hp
    exact ⟨c, hc, hp⟩

/-- The edges lie in the order of their ends, and in the order of insertion between the same
ends. -/
theorem pairwise_inserted_addAll (es : List Edge) :
    ((∅ : Automaton).addAll es).edges.Pairwise (Edge.InsertedBefore es) := by
  induction es using List.reverseRecOn with
  | nil => exact List.Pairwise.nil
  | append_singleton es e ih =>
    have htwin : ∀ d ∈ ((∅ : Automaton).addAll es).edges, ∃ c ∈ es, c.Twin d := by
      intro d hd
      exact exists_twin_addAll_empty.1 ⟨d, hd, rfl, rfl, rfl⟩
    have hkept : ((∅ : Automaton).addAll es).edges.Pairwise (Edge.InsertedBefore (es ++ [e])) := by
      refine ih.imp_of_mem fun {c d} hc hd hcd => ?_
      exact hcd.append (htwin c hc) (htwin d hd) [e]
    rw [addAll_concat, edges_add]
    split
    · exact hkept
    · rename_i hnew
      rw [exists_twin_addAll_empty] at hnew
      apply Edge.pairwise_place (orderly _) hkept
      · exact fun d _ hed => .inl hed
      · intro d hd hed
        by_cases hde : d.Before e
        · exact .inl hde
        · refine .inr ⟨Edge.same_ends_of_not_before hde hed, ?_⟩
          rw [Edge.firstIndex_append (htwin d hd), Edge.firstIndex_concat_self hnew]
          exact List.findIdx_lt_length.2 (by simpa using htwin d hd)

/-! ## Edits -/

/-- One change to an automaton. -/
inductive Edit where
  | insert (e : Edge)
  | chooseStart (s : StateId)
  | dropUnlabelled

/-- The edge that an edit inserts. -/
def Edit.edge? : Edit → Option Edge
  | insert e => some e
  | _ => none

/-- The start state that an edit chooses. -/
def Edit.start? : Edit → Option StateId
  | chooseStart s => some s
  | _ => none

/-- The automaton after an edit. -/
def edit (a : Automaton) : Edit → Automaton
  | .insert e => a.add e
  | .chooseStart s => a.withStart s
  | .dropUnlabelled => a.dropUnlabelled

/-- The automaton made by a series of edits. -/
def edited (edits : List Edit) : Automaton := edits.foldl edit ∅

/-- The edges that a series of edits inserts. -/
def inserted (edits : List Edit) : List Edge := edits.filterMap Edit.edge?

/-- The start state that a series of edits chooses last. -/
def lastStart? (edits : List Edit) : Option StateId := (edits.filterMap Edit.start?).getLast?

/-- The start state is the one chosen last, and stays as it was if none is chosen. -/
theorem start_foldl_edit (a : Automaton) (edits : List Edit) :
    (edits.foldl edit a).start = (lastStart? edits).getD a.start := by
  unfold lastStart?
  induction edits generalizing a with
  | nil => rfl
  | cons x edits ih =>
    rw [List.foldl_cons, ih]
    cases x with
    | insert e =>
      rw [edit, start_add]
      rfl
    | chooseStart s =>
      have hchosen : (Edit.chooseStart s :: edits).filterMap Edit.start? =
          s :: edits.filterMap Edit.start? := rfl
      rw [hchosen, List.getLast?_cons, Option.getD_some, edit, start_withStart]
    | dropUnlabelled => rfl

/-- The start state matters to none of the edges. -/
theorem edges_foldl_edit (a : Automaton) (edits : List Edit) :
    (edits.foldl edit a).edges = (a.addAll (inserted edits)).edges := by
  induction edits generalizing a with
  | nil => rfl
  | cons x edits ih =>
    rw [List.foldl_cons, ih]
    cases x with
    | insert e => rfl
    | chooseStart s => exact edges_addAll_congr (a := a.withStart s) (b := a) rfl (inserted edits)
    | dropUnlabelled => rfl

/-! ## Questions to an automaton -/

/-- What is no state has no edges to look through. -/
theorem edgesFrom_of_not_mem (h : s ∉ a.states) : a.edgesFrom s = .error (.stateNotFound s) := by
  rw [edgesFrom, if_neg (mt hasState_iff.1 h)]

/-- Nothing is given from what is no state. -/
theorem between_of_not_mem (h : s ∉ a.states) (t : StateId) :
    a.between s t = .error (.stateNotFound s) := by
  rw [between, edgesFrom_of_not_mem h]
  rfl

/-- What is given between two states are the touches of the edges between them, and it is never
empty. -/
theorem between_eq_ok {us : List Touch} :
    a.between s t = .ok us ↔ us = a.touchesBetween s t ∧ us ≠ [] := by
  by_cases hs : s ∈ a.states
  · rw [between_of_hasState (hasState_iff.2 hs)]
    split
    · rename_i hnone
      simp [hnone]
    · rename_i hsome
      constructor
      · rintro ⟨⟩
        exact ⟨rfl, hsome⟩
      · rintro ⟨rfl, -⟩
        rfl
  · have hnone : a.touchesBetween s t = [] := by
      rw [touchesBetween_eq_nil_iff]
      rintro ⟨e, he, rfl, -⟩
      exact hs (hasState_iff.1 (hasState_source he))
    rw [between_of_not_mem hs, hnone]
    simp

/-- Something is given between two states exactly when an edge joins them. -/
theorem exists_between_iff :
    (∃ us, a.between s t = .ok us) ↔ ∃ e ∈ a.edges, e.source = s ∧ e.target = t := by
  simp only [between_eq_ok, exists_eq_left]
  rw [ne_eq, touchesBetween_eq_nil_iff, not_not]

/-- Without an edge between them the fault is that no edge joins the two states, or that the first
is no state. -/
theorem between_of_not_exists (h : ¬ ∃ e ∈ a.edges, e.source = s ∧ e.target = t) :
    a.between s t =
      .error (if s ∈ a.states then .transitionNotFound s t else .stateNotFound s) := by
  split
  · rename_i hs
    rw [between_of_hasState (hasState_iff.2 hs), if_pos (touchesBetween_eq_nil_iff.2 h)]
  · rename_i hs
    exact between_of_not_mem hs t

/-- Out of a state lead, under each target, the touches of the edges to this target, if there are
any. -/
theorem exists_outgoing (h : s ∈ a.states) :
    ∃ m, a.outgoing s = .ok m ∧
      ∀ t us, m.get? t = some us ↔ us = a.touchesBetween s t ∧ us ≠ [] := by
  refine ⟨_, outgoing_of_hasState (hasState_iff.2 h), fun t us => ?_⟩
  rw [Edge.get?_touchesByTarget_eq_some, map_touch_leaving]

/-- Nothing leads out of what is no state. -/
theorem outgoing_of_not_mem (h : s ∉ a.states) : a.outgoing s = .error (.stateNotFound s) := by
  rw [outgoing, edgesFrom_of_not_mem h]
  rfl

/-- No list of touches between two states is empty. -/
theorem ne_nil_of_mem_outgoing {m : OrderedMap StateId (List Touch)} (h : a.outgoing s = .ok m)
    {cell : StateId × List Touch} (hcell : cell ∈ m.toList) : cell.2 ≠ [] := by
  by_cases hs : s ∈ a.states
  · obtain ⟨m', hm', htouches⟩ := exists_outgoing hs
    obtain rfl := Except.ok.inj (h.symm.trans hm')
    exact ((htouches _ _).1 (OrderedMap.get?_eq_some_iff.2 hcell)).2
  · rw [outgoing_of_not_mem hs] at h
    exact nomatch h

/-- No label is followed from what is no state. -/
theorem next_of_not_mem (h : s ∉ a.states) (l : String) :
    a.next s l = .error (.stateNotFound s) := by
  rw [next, edgesFrom_of_not_mem h]
  rfl

/-- Edges from one state under one label lie in the order of their targets. -/
theorem ascending_targets (a : Automaton) (s : StateId) (l : String) :
    Ascending (((a.leaving s).filter fun e => e.label = l).map Edge.target) := by
  have hlist := a.orderly.sublist ((List.filter_sublist (p := fun e => e.label = l)).trans
    (List.filter_sublist (p := fun e => e.source = s)))
  refine List.pairwise_map.2 (hlist.imp_of_mem fun {d e} hd he h => ?_)
  simp only [List.mem_filter, mem_leaving, decide_eq_true_eq] at hd he
  have hsource : d.source = e.source := hd.1.2.trans he.1.2.symm
  have hlabel : d.label = e.label := hd.2.trans he.2.symm
  rw [Std.compare_eq_lt]
  by_cases hde : d.Before e
  · rcases hde with hlt | ⟨-, hlt⟩
    · rw [hsource] at hlt
      exact absurd hlt (UInt32.lt_irrefl _)
    · exact hlt
  · obtain ⟨-, htarget⟩ := Edge.same_ends_of_not_before hde h.1
    exact absurd ⟨hsource, htarget, hlabel⟩ h.2

/-- From a state the targets of the edges with a label are given, in ascending order. -/
theorem exists_next (h : s ∈ a.states) (l : String) :
    ∃ ns, a.next s l = .ok ns ∧ Ascending ns ∧
      ∀ t, t ∈ ns ↔ ∃ e ∈ a.edges, e.triple = (s, t, l) := by
  refine ⟨_, next_of_hasState (hasState_iff.2 h) l, ascending_targets a s l, fun t => ?_⟩
  simp only [List.mem_map, List.mem_filter, mem_leaving, decide_eq_true_eq, Edge.triple,
    Prod.mk.injEq]
  constructor
  · rintro ⟨e, ⟨⟨he, hs⟩, hl⟩, ht⟩
    exact ⟨e, he, hs, ht, hl⟩
  · rintro ⟨e, he, hs, ht, hl⟩
    exact ⟨e, ⟨⟨he, hs⟩, hl⟩, ht⟩

/-- No two edges have the same ends and the same label. -/
theorem nodup_triples (a : Automaton) : (a.edges.map Edge.triple).Nodup := by
  refine List.pairwise_map.2 (a.orderly.imp fun {d e} h heq => ?_)
  exact h.2 (Edge.triple_eq_iff_twin.1 heq)

/-! ## What a series of edits makes -/

/-- An automaton answers every question by the edges that were inserted. -/
structure Collects (a : Automaton) (es : List Edge) : Prop where
  mem_states_iff : ∀ s, s ∈ a.states ↔ ∃ e ∈ es, e.source = s ∨ e.target = s
  mem_triples_iff : ∀ p, p ∈ a.edges.map Edge.triple ↔ p ∈ es.map Edge.triple
  triples_nodup : (a.edges.map Edge.triple).Nodup
  in_order : a.edges.Pairwise (Edge.InsertedBefore es)
  /-- Each edge is the first that was inserted with its ends and its label, triggers and all. -/
  first : ∀ e ∈ a.edges, es.find? (fun d => d.Twin e) = some e
  /-- Under each target stand the touches of the edges to it, and no target stands there without. -/
  outgoing_of_state : ∀ s ∈ a.states, ∃ m, a.outgoing s = .ok m ∧
    ∀ t us, m.get? t = some us ↔ us = a.touchesBetween s t ∧ us ≠ []
  outgoing_of_missing : ∀ s, s ∉ a.states → a.outgoing s = .error (.stateNotFound s)
  labelled : ∀ s m, a.outgoing s = .ok m → ∀ cell ∈ m.toList, cell.2 ≠ []
  transitionCount_eq : a.transitionCount = (es.map Edge.triple).toFinset.card
  between_eq_ok_iff : ∀ s t us, a.between s t = .ok us ↔ us = a.touchesBetween s t ∧ us ≠ []
  between_iff : ∀ s t, (∃ us, a.between s t = .ok us) ↔ ∃ e ∈ es, e.source = s ∧ e.target = t
  between_of_none : ∀ s t, (¬ ∃ e ∈ es, e.source = s ∧ e.target = t) →
    a.between s t = .error (if s ∈ a.states then .transitionNotFound s t else .stateNotFound s)
  next_of_state : ∀ s ∈ a.states, ∀ l, ∃ ns, a.next s l = .ok ns ∧ Ascending ns ∧
    ∀ t, t ∈ ns ↔ (s, t, l) ∈ es.map Edge.triple
  next_of_missing : ∀ s, s ∉ a.states → ∀ l, a.next s l = .error (.stateNotFound s)
  accepts_of_edges : ∀ s, a.accepts s = true ↔
    (∃ e ∈ es, e.source = s ∨ e.target = s) ∧ ¬ ∃ e ∈ es, e.source = s

/-- Whatever the start state, an automaton with the edges that were added answers by them. -/
theorem collects_of_edges_eq (h : a.edges = ((∅ : Automaton).addAll es).edges) :
    Collects a es := by
  have hexists : ∀ p : StateId × StateId × String → Prop,
      (∃ e ∈ a.edges, p e.triple) ↔ ∃ e ∈ es, p e.triple := fun p => by
    rw [h]
    exact exists_mem_addAll_empty p
  have hstates : ∀ s, s ∈ a.states ↔ ∃ e ∈ es, e.source = s ∨ e.target = s := fun s =>
    mem_states.trans (hexists fun p => p.1 = s ∨ p.2.1 = s)
  have hjoined : ∀ s t, (∃ e ∈ a.edges, e.source = s ∧ e.target = t) ↔
      ∃ e ∈ es, e.source = s ∧ e.target = t := fun s t => hexists fun p => p.1 = s ∧ p.2.1 = t
  have hleft : ∀ s, (∃ e ∈ a.edges, e.source = s) ↔ ∃ e ∈ es, e.source = s := fun s =>
    hexists fun p => p.1 = s
  have htriples : ∀ p, p ∈ a.edges.map Edge.triple ↔ p ∈ es.map Edge.triple := fun p => by
    rw [List.mem_map, List.mem_map]
    exact hexists fun q => q = p
  constructor
  case mem_states_iff => exact hstates
  case mem_triples_iff => exact htriples
  case triples_nodup => exact nodup_triples a
  case in_order =>
    rw [h]
    exact pairwise_inserted_addAll es
  case first =>
    intro e he
    rw [h] at he
    exact mem_addAll_empty.1 he
  case outgoing_of_state => exact fun s hs => exists_outgoing hs
  case outgoing_of_missing => exact fun s hs => outgoing_of_not_mem hs
  case labelled => exact fun s m hm cell hcell => ne_nil_of_mem_outgoing hm hcell
  case transitionCount_eq =>
    have hsame : (a.edges.map Edge.triple).toFinset = (es.map Edge.triple).toFinset := by
      ext p
      rw [List.mem_toFinset, List.mem_toFinset, htriples]
    rw [← hsame, List.toFinset_card_of_nodup (nodup_triples a), List.length_map, transitionCount]
  case between_eq_ok_iff => exact fun s t us => between_eq_ok
  case between_iff => exact fun s t => exists_between_iff.trans (hjoined s t)
  case between_of_none => exact fun s t hnone => between_of_not_exists (mt (hjoined s t).1 hnone)
  case next_of_state =>
    intro s hs l
    obtain ⟨ns, hns, hascending, hmem⟩ := exists_next hs l
    refine ⟨ns, hns, hascending, fun t => ?_⟩
    rw [hmem, ← htriples, List.mem_map]
  case next_of_missing => exact fun s hs l => next_of_not_mem hs l
  case accepts_of_edges =>
    intro s
    rw [← hstates, ← hleft, ← hasState_iff]
    simp [accepts, leaving]

/-- An automaton that was made by edits answers by the edges inserted, and its start state is the
one chosen last. It is the same as another one when the start states and, edge by edge, the ends and
the labels are the same, and so are then the labels by source and by target. -/
theorem edited_collects (edits others : List Edit) :
    Collects (edited edits) (inserted edits) ∧
    (edited edits).start = (lastStart? edits).getD defaultStart ∧
    ((edited edits).alike (edited others) = true ↔
      (edited edits).start = (edited others).start ∧
      (edited edits).edges.map Edge.triple = (edited others).edges.map Edge.triple) ∧
    ((edited edits).alike (edited others) = true ↔
      (edited edits).start = (edited others).start ∧
      (edited edits).labelRows = (edited others).labelRows) := by
  have hedges : (edited edits).edges = ((∅ : Automaton).addAll (inserted edits)).edges :=
    edges_foldl_edit ∅ edits
  refine ⟨collects_of_edges_eq hedges, start_foldl_edit ∅ edits, alike_iff, ?_⟩
  rw [labelRows_eq_iff]
  exact alike_iff

end Automaton

end TouchAutomata
