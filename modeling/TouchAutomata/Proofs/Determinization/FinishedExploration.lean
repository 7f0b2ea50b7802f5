import TouchAutomata.Determinization.Basic
import TouchAutomata.Proofs.Automaton.Insertion
import TouchAutomata.Proofs.Determinization.ExplorationInvariants
import Mathlib.Data.Finset.Powerset
import Mathlib.Data.Set.Card

/-!
# What an exploration that ended well has found

`ofAutomaton_finished` says that the rounds an exploration is given suffice: it ends with nothing
pending, since there are fewer non-empty sets of states than rounds. Then the sets it has found
are exactly the attained ones (`Finished.exists_mem_found_iff`), and the edges it has laid are
those of the label groups of these sets (`Finished.mem_edges`).
-/

set_option autoImplicit false

namespace TouchAutomata.Exploration

variable {a target : Automaton} {limit : StateLimit} {x : Exploration}
variable {S : StateSet} {n d d' : StateId} {g : LabelGroup} {l : String}

/-- All sets that were found were taken, and all their tasks are done. -/
def Finished (a : Automaton) (limit : StateLimit) (target : Automaton) (x : Exploration) : Prop :=
  Stage a limit target x.found (tasksOf a x.found) [] x

/-- A stage with nothing to do and nothing pending is the last. -/
theorem Stage.finished {taken : List (StateSet × StateId)} {done : List Task}
    (h : Stage a limit target taken done [] x) (none_pending : x.pending = []) :
    Finished a limit target x := by
  have hfound : x.found = taken := by rw [h.found_eq, none_pending, List.append_nil]
  have hdone : tasksOf a taken = done := by rw [h.tasks_eq, List.append_nil]
  rw [Finished, hfound, hdone]
  exact h

/-! ## The rounds suffice -/

/-- Different non-empty sets of states from a given set are fewer than all its subsets. -/
theorem length_lt_of_subsets {L : List StateSet} {U : StateSet} (distinct : L.Nodup)
    (sub : ∀ S ∈ L, (∃ s, s ∈ S) ∧ ∀ s ∈ S, s ∈ U) : L.length < 2 ^ U.size := by
  have hinj : Function.Injective fun S : StateSet => S.toList.toFinset := by
    intro S T hST
    refine OrderedSet.ext_mem fun s => ?_
    have := congrArg (s ∈ ·) hST
    simpa [OrderedSet.mem_def] using this
  have hsub : (L.map fun S => S.toList.toFinset).toFinset ⊆
      U.toList.toFinset.powerset.erase ∅ := by
    intro F hF
    obtain ⟨S, hS, rfl⟩ := List.mem_map.1 (List.mem_toFinset.1 hF)
    obtain ⟨⟨s, hs⟩, hU⟩ := sub S hS
    refine Finset.mem_erase.2 ⟨?_, Finset.mem_powerset.2 ?_⟩
    · exact Finset.nonempty_iff_ne_empty.1 ⟨s, List.mem_toFinset.2 hs⟩
    · intro t ht
      exact List.mem_toFinset.2 (hU t (List.mem_toFinset.1 ht))
  have hcard := Finset.card_le_card hsub
  rw [List.toFinset_card_of_nodup (distinct.map hinj), List.length_map,
    Finset.card_erase_of_mem (Finset.empty_mem_powerset _), Finset.card_powerset,
    List.toFinset_card_of_nodup U.ascending.nodup] at hcard
  have hpos : 0 < 2 ^ U.toList.length := Nat.two_pow_pos _
  rw [OrderedSet.size]
  omega

/-- The sets that are found are fewer than all sets of states. -/
theorem Stage.length_lt_two_pow {taken : List (StateSet × StateId)} {done todo : List Task}
    (h : Stage a limit target taken done todo x) (hstart : a.hasState a.start = true) :
    x.found.length < 2 ^ a.stateCount := by
  have hsets : ∀ S ∈ x.found.map Prod.fst, (∃ s, s ∈ S) ∧ ∀ s ∈ S, s ∈ a.states := by
    intro S hS
    obtain ⟨p, hp, rfl⟩ := List.mem_map.1 hS
    have hattained := h.attained p hp
    exact ⟨hattained.1, fun s hs => Automaton.hasState_iff.1 (hattained.hasState hstart hs)⟩
  have hfew := length_lt_of_subsets h.numbered.distinct hsets
  rw [List.length_map] at hfew
  exact hfew

/-- An exploration that ends well has nothing left to do, and the automaton has its start
state. -/
theorem ofAutomaton_finished (h : ofAutomaton a limit target = .ok x) :
    Finished a limit target x ∧ a.hasState a.start = true := by
  have hstart : a.hasState a.start = true := by
    rw [ofAutomaton] at h
    cases hrounds : Nat.pow 2 a.stateCount with
    | zero => exact absurd hrounds (Nat.two_pow_pos _).ne'
    | succ rounds =>
      rw [hrounds] at h
      cases hz : expand a limit { begin a.start target with pending := [] } {a.start}
          Automaton.defaultStart with
      | error halt =>
        simp [explore, begin, discover] at h hz
        simp [hz, bind, Except.bind] at h
      | ok z => exact (expand_eq_ok.1 hz).1 a.start (by simp)
  refine ⟨?_, hstart⟩
  obtain ⟨taken, done, hstage, hpending | hrounds⟩ := explore_stage .begun h
  · exact hstage.finished hpending
  · -- each round has taken a set, and there are fewer sets than rounds
    have hfew := hstage.length_lt_two_pow hstart
    have hlength := congrArg List.length hstage.found_eq
    have hpow : Nat.pow 2 a.stateCount = 2 ^ a.stateCount := rfl
    rw [List.length_append] at hlength
    rw [List.length_nil, hpow] at hrounds
    omega

/-! ## The sets found -/

/-- The tasks of some sets are the label groups of each, with its number. -/
theorem mem_tasksOf {found : List (StateSet × StateId)} :
    (n, g) ∈ tasksOf a found ↔ ∃ S, (S, n) ∈ found ∧ g ∈ (a.labelGroups S).values := by
  simp only [tasksOf, List.mem_flatMap, List.mem_map, Prod.mk.injEq, Prod.exists]
  grind

/-- The targets of a group of a set that was found were found too. -/
theorem Finished.exists_number_targets (h : Finished a limit target x) (hS : (S, n) ∈ x.found)
    (hg : g ∈ (a.labelGroups S).values) : ∃ m, (g.targets, m) ∈ x.found := by
  obtain ⟨es, -, hlays⟩ := Stage.laid h
  obtain ⟨i, hi, hti⟩ := List.getElem_of_mem (mem_tasksOf.2 ⟨S, hS, hg⟩)
  have hlay := hlays.get hi (hlays.length_eq ▸ hi)
  rw [List.get_eq_getElem, hti] at hlay
  exact ⟨_, hlay.2.2⟩

/-- Where a label leads from a set that was found was found too, if it leads to some state. -/
theorem Finished.exists_number (h : Finished a limit target x) (hS : (S, n) ∈ x.found)
    (hl : ∃ t, t ∈ a.afterLabel S l) : ∃ m, (a.afterLabel S l, m) ∈ x.found := by
  obtain ⟨g, hg, rfl⟩ := Automaton.exists_mem_labelGroups_iff.2 hl
  rw [← Automaton.targets_of_mem_labelGroups hg]
  exact h.exists_number_targets hS hg

/-- A finished exploration has found the sets that are attained, and no others. -/
theorem Finished.exists_mem_found_iff (h : Finished a limit target x) :
    (∃ n, (S, n) ∈ x.found) ↔ a.Attains S := by
  -- a word that leads to some state does so without its last label
  have hreached : ∀ w, (∃ t, t ∈ a.reached w) → ∃ n, (a.reached w, n) ∈ x.found := by
    intro w
    induction w using List.reverseRecOn with
    | nil => exact fun _ => ⟨_, Stage.mem_start h⟩
    | append_singleton w l ih =>
      rw [Automaton.reached_concat]
      rintro ⟨t, ht⟩
      obtain ⟨e, -, hs, -, -⟩ := Automaton.mem_afterLabel.1 ht
      obtain ⟨n, hn⟩ := ih ⟨_, hs⟩
      exact h.exists_number hn ⟨t, ht⟩
  constructor
  · rintro ⟨n, hn⟩
    exact Stage.attained h _ hn
  · intro hS
    obtain ⟨hsome, w, rfl⟩ := Automaton.attains_iff.1 hS
    exact hreached w hsome

/-- A finished exploration has found as many sets as are attained. -/
theorem Finished.length_eq (h : Finished a limit target x) :
    x.found.length = a.attainedCount := by
  have hset : {S | a.Attains S} = ((x.found.map Prod.fst).toFinset : Set StateSet) := by
    ext S
    simp [← h.exists_mem_found_iff]
  rw [Automaton.attainedCount, hset, Set.ncard_coe_finset,
    List.toFinset_card_of_nodup (Stage.numbered h).distinct, List.length_map]

/-- If few enough sets are attained, there are numbers enough for the sets found. -/
theorem Finished.length_lt (h : Finished a limit target x)
    (few : a.attainedCount < UInt32.size - 1) : x.found.length < UInt32.size := by
  have := h.length_eq
  omega

/-! ## The edges laid -/

variable {e : Edge}

/-- The edges of the result stay when the exploration is over. -/
@[simp] theorem edges_finished (x : Exploration) : x.finished.edges = x.result.edges := by
  unfold finished
  split <;> rfl

/-- Of two lists related entry by entry, the second holds what is related to the first, if no two
things are related to one. -/
theorem mem_iff_of_forall₂ {α β : Type} {R : α → β → Prop} {l : List α} {l' : List β}
    (unique : Relator.RightUnique R) (h : List.Forall₂ R l l') (b : β) :
    b ∈ l' ↔ ∃ a ∈ l, R a b := by
  induction h with
  | nil => simp
  | @cons a b' l l' hab _ ih =>
    have hhead : b = b' ↔ R a b := by
      constructor
      · rintro rfl
        exact hab
      · intro hb
        exact unique hb hab
    simp [ih, hhead]

/-- The edges laid for the tasks are those of the groups of the sets found. -/
theorem Finished.mem_laid (h : Finished a limit target x) {es : List Edge}
    (hlays : List.Forall₂ x.Lays (tasksOf a x.found) es) :
    e ∈ es ↔ ∃ S g, (S, e.source) ∈ x.found ∧ g ∈ (a.labelGroups S).values ∧
      (g.targets, e.target) ∈ x.found ∧ e.touch = g.touch := by
  rw [mem_iff_of_forall₂ (Stage.numbered h).lays_unique hlays e]
  constructor
  · rintro ⟨⟨n, g⟩, ht, rfl, htouch, htarget⟩
    obtain ⟨S, hS, hg⟩ := mem_tasksOf.1 ht
    exact ⟨S, g, hS, hg, htarget, htouch⟩
  · rintro ⟨S, g, hS, hg, htarget, htouch⟩
    exact ⟨(e.source, g), mem_tasksOf.2 ⟨S, hS, hg⟩, rfl, htouch, htarget⟩

/-- The edges that were added to the target automaton are those of the groups of the sets
found. -/
theorem Finished.laid (h : Finished a limit target x) :
    ∃ es, x.result = target.addAll es ∧
      ∀ e, e ∈ es ↔ ∃ S g, (S, e.source) ∈ x.found ∧ g ∈ (a.labelGroups S).values ∧
        (g.targets, e.target) ∈ x.found ∧ e.touch = g.touch := by
  obtain ⟨es, hresult, hlays⟩ := Stage.laid h
  exact ⟨es, hresult, fun e => h.mem_laid hlays⟩

/-- From the number of a set, an edge is laid for each label that leaves the set. -/
theorem Finished.exists_edge_label (h : Finished a limit target x) (hS : (S, d) ∈ x.found)
    (hl : ∃ t, t ∈ a.afterLabel S l) : ∃ e ∈ x.finished.edges, e.source = d ∧ e.label = l := by
  obtain ⟨g, hg, rfl⟩ := Automaton.exists_mem_labelGroups_iff.2 hl
  obtain ⟨m, hm⟩ := h.exists_number_targets hS hg
  obtain ⟨es, hresult, hmem⟩ := h.laid
  have hlaid : ⟨d, m, g.touch⟩ ∈ es := (hmem _).2 ⟨S, g, hS, hg, hm, rfl⟩
  obtain ⟨e, he, hsource, -, hlabel⟩ :=
    Automaton.exists_twin_addAll.2 (.inr ⟨_, hlaid, rfl, rfl, rfl⟩)
  rw [← hresult, ← edges_finished] at he
  exact ⟨e, he, hsource, hlabel⟩

/-- Every edge was laid for some task, if the target automaton had none. -/
theorem Finished.exists_task (h : Finished a limit target x)
    (no_edges : target.edges = []) (he : e ∈ x.finished.edges) :
    ∃ S g, (S, e.source) ∈ x.found ∧ g ∈ (a.labelGroups S).values ∧
      (g.targets, e.target) ∈ x.found ∧ e.touch = g.touch := by
  obtain ⟨es, hresult, hmem⟩ := h.laid
  rw [edges_finished, hresult, Automaton.mem_edges_addAll_iff, no_edges] at he
  rcases he with he | ⟨-, hfind⟩
  · exact absurd he List.not_mem_nil
  · exact (hmem e).1 (List.mem_of_find?_eq_some hfind)

/-- While there are numbers enough, none of these edges is lost. -/
theorem Finished.mem_edges (h : Finished a limit target x) (no_edges : target.edges = [])
    (few : x.found.length < UInt32.size) :
    e ∈ x.finished.edges ↔ ∃ S g, (S, e.source) ∈ x.found ∧ g ∈ (a.labelGroups S).values ∧
      (g.targets, e.target) ∈ x.found ∧ e.touch = g.touch := by
  obtain ⟨es, hresult, hmem⟩ := h.laid
  -- edges with the same source belong to one set, and those with the same label to one group
  have htwins : ∀ c, c ∈ target.edges ∨ c ∈ es → ∀ e ∈ es, c.Twin e → c = e := by
    rintro ⟨s, d, t⟩ hc ⟨s', d', t'⟩ he ⟨hsource, htarget, hlabel⟩
    rw [no_edges, hmem] at hc
    obtain ⟨S, g, hS, hg, -, htouch⟩ := hc.resolve_left List.not_mem_nil
    obtain ⟨T, g', hT, hg', -, htouch'⟩ := (hmem _).1 he
    dsimp only [Edge.label] at *
    subst hsource htarget htouch htouch'
    obtain rfl := (Stage.numbered h).set_unique few.le hS hT
    rw [Automaton.eq_of_mem_labelGroups hg hg' hlabel]
  rw [edges_finished, hresult, Automaton.mem_edges_addAll htwins, no_edges, hmem]
  simp

/-- From the number of a set, a label leads to the number of the set it leads to. -/
theorem Finished.edge_iff (h : Finished a limit target x) (no_edges : target.edges = [])
    (few : x.found.length < UInt32.size) (hS : (S, d) ∈ x.found) :
    (∃ e ∈ x.finished.edges, e.source = d ∧ e.label = l ∧ e.target = d') ↔
      (a.afterLabel S l, d') ∈ x.found := by
  constructor
  · rintro ⟨e, he, rfl, rfl, rfl⟩
    obtain ⟨T, g, hT, hg, htarget, htouch⟩ := (h.mem_edges no_edges few).1 he
    obtain rfl := (Stage.numbered h).set_unique few.le hS hT
    rw [Edge.label, htouch, ← Automaton.targets_of_mem_labelGroups hg]
    exact htarget
  · intro hd'
    obtain ⟨g, hg, rfl⟩ := Automaton.exists_mem_labelGroups_iff.2 (Stage.attained h _ hd').1
    rw [← Automaton.targets_of_mem_labelGroups hg] at hd'
    refine ⟨⟨d, d', g.touch⟩, ?_, rfl, rfl, rfl⟩
    exact (h.mem_edges no_edges few).2 ⟨S, g, hS, hg, hd', rfl⟩

/-- An edge leaves the number of a set when some edge leaves the set. -/
theorem Finished.exists_edge_iff (h : Finished a limit target x) (no_edges : target.edges = [])
    (few : x.found.length < UInt32.size) (hS : (S, d) ∈ x.found) :
    (∃ e ∈ x.finished.edges, e.source = d) ↔ ∃ e ∈ a.edges, e.source ∈ S := by
  constructor
  · rintro ⟨e, he, hsource⟩
    have htarget := (h.edge_iff no_edges few hS).1 ⟨e, he, hsource, rfl, rfl⟩
    obtain ⟨t, ht⟩ := (Stage.attained h _ htarget).1
    obtain ⟨f, hf, hs, -⟩ := Automaton.mem_afterLabel.1 ht
    exact ⟨f, hf, hs⟩
  · rintro ⟨e, he, hs⟩
    have ht : e.target ∈ a.afterLabel S e.label :=
      Automaton.mem_afterLabel.2 ⟨e, he, hs, rfl, rfl⟩
    obtain ⟨f, hf, hsource, -⟩ := h.exists_edge_label hS ⟨_, ht⟩
    exact ⟨f, hf, hsource⟩

end TouchAutomata.Exploration
