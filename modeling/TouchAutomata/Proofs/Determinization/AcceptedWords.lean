import TouchAutomata.Proofs.Determinization.WordSimulation

/-!
# The words that are accepted

A state accepts when no edge leaves it, so the state that stands for a set accepts when no edge
leaves any member. The deterministic automaton therefore accepts a word when all states that the
word leads to accept (`Finished.recognizes_iff`), which are the words that can be read but not
be read on (`determinize_recognizes_maximal`). A word that leads to an accepting state and to one
that can be left is no longer accepted (`determinize_recognizes_iff`).
-/

set_option autoImplicit false

namespace TouchAutomata

namespace Automaton

variable {a : Automaton} {s t : StateId} {w : List String}

/-- All states that a word leads to accept exactly when the word cannot be read on. -/
theorem forall_accepts_iff (hw : w ≠ []) :
    (∀ s, a.Reaches w s → a.accepts s = true) ↔ ∀ l, ¬ ∃ s, a.Reaches (w ++ [l]) s := by
  constructor
  · rintro h l ⟨t, ht⟩
    obtain ⟨s, hs, hl⟩ := path_append.1 ht
    obtain ⟨e, he, hsource, -⟩ := path_cons.1 hl
    exact (accepts_iff.1 (h s hs)).2 e he hsource
  · intro h s hs
    refine accepts_iff.2 ⟨hs.hasState_of_ne_nil hw, ?_⟩
    intro e he hsource
    have hl : a.Path s [e.label] e.target := path_cons.2 ⟨e, he, hsource, rfl, .nil _⟩
    exact h e.label ⟨e.target, path_append.2 ⟨s, hs, hl⟩⟩

/-- No word is read on from a state that accepts. -/
theorem eq_nil_of_accepts (h : a.accepts s = true) (hw : a.Path s w t) : w = [] := by
  cases hw with
  | nil => rfl
  | cons mem => exact absurd rfl ((accepts_iff.1 h).2 _ mem)

end Automaton

namespace Exploration

variable {a : Automaton} {limit : StateLimit} {x : Exploration}
variable {S : StateSet} {d : StateId} {v w : List String}

/-- The state that stands for a set accepts when all members accept. -/
theorem Finished.accepts_iff (h : Finished a limit ∅ x) (few : x.found.length < UInt32.size)
    (hS : (S, d) ∈ x.found) (hd : x.finished.hasState d = true) :
    x.finished.accepts d = true ↔ ∀ s ∈ S, a.accepts s = true := by
  have hedge := h.exists_edge_iff rfl few hS
  have hmembers : ∀ s ∈ S, a.hasState s = true := fun s =>
    (Stage.attained h _ hS).hasState (h.hasState_start hd)
  simp only [Automaton.accepts_iff, hd, true_and]
  constructor
  · intro hnone s hs
    refine ⟨hmembers s hs, ?_⟩
    rintro e he rfl
    obtain ⟨f, hf, hsource⟩ := hedge.2 ⟨e, he, hs⟩
    exact hnone f hf hsource
  · intro hall e he hsource
    obtain ⟨f, hf, hs⟩ := hedge.1 ⟨e, he, hsource⟩
    exact (hall _ hs).2 f hf rfl

/-- A word is accepted when it leads to some state and all states it leads to accept. -/
theorem Finished.recognizes_iff (h : Finished a limit ∅ x) (few : x.found.length < UInt32.size)
    (hw : w ≠ []) :
    x.finished.Recognizes w ↔
      (∃ s, a.Reaches w s) ∧ ∀ s, a.Reaches w s → a.accepts s = true := by
  constructor
  · rintro ⟨d, hd, haccepts⟩
    have hS := (h.reaches_iff few).1 hd
    have hall := (h.accepts_iff few hS (Automaton.accepts_iff.1 haccepts).1).1 haccepts
    exact ⟨(h.exists_reaches_iff few).1 ⟨d, hd⟩,
      fun s hs => hall s (Automaton.mem_reached.2 hs)⟩
  · rintro ⟨hsome, hall⟩
    obtain ⟨d, hd⟩ := (h.exists_reaches_iff few).2 hsome
    have hS := (h.reaches_iff few).1 hd
    refine ⟨d, hd, (h.accepts_iff few hS (hd.hasState_of_ne_nil hw)).2 ?_⟩
    intro s hs
    exact hall s (Automaton.mem_reached.1 hs)

/-- A word that is accepted cannot be read on. -/
theorem Finished.eq_nil_of_recognizes (h : Finished a limit ∅ x)
    (few : x.found.length < UInt32.size) (hv : x.finished.Recognizes v)
    (hw : x.finished.Reaches (v ++ w) d) : w = [] := by
  obtain ⟨r, hr, haccepts⟩ := hv
  obtain ⟨r', hr', hrest⟩ := Automaton.path_append.1 hw
  obtain rfl : r' = r := (Stage.numbered h).number_unique
    ((h.reaches_iff few).1 hr') ((h.reaches_iff few).1 hr)
  exact Automaton.eq_nil_of_accepts haccepts hrest

end Exploration

namespace Automaton

variable {a dfa : Automaton} {limit : StateLimit} {report : DeterminizationReport}

/-- A state of the deterministic automaton accepts when all states in its set accept. The words
it accepts are those that can be read but not be read on, and it cannot read on after them
either. -/
theorem determinize_recognizes_maximal (h : a.determinize limit = .ok (dfa, report))
    (few : a.attainedCount < UInt32.size - 1) :
    (∀ d ∈ dfa.states, ∃ S, report.stateSets.get? d = some S ∧
      (dfa.accepts d = true ↔ ∀ s ∈ S, a.accepts s = true)) ∧
    (∀ w, w ≠ [] → (dfa.Recognizes w ↔
      (∃ s, a.Reaches w s) ∧ ∀ l, ¬ ∃ s, a.Reaches (w ++ [l]) s)) ∧
    ∀ v w, w ≠ [] → dfa.Recognizes v → ¬ ∃ d, dfa.Reaches (v ++ w) d := by
  obtain ⟨x, hx, rfl, rfl⟩ := determinize_finished h
  have few := hx.length_lt few
  refine ⟨?_, ?_, ?_⟩
  · intro d hd
    rw [← hasState_iff] at hd
    obtain ⟨S, hS⟩ := hx.exists_set rfl hd
    exact ⟨S, (hx.get?_report few).2 ⟨hS, hd⟩, hx.accepts_iff few hS hd⟩
  · intro w hw
    rw [hx.recognizes_iff few hw, forall_accepts_iff hw]
  · rintro v w hw hv ⟨d, hd⟩
    apply hw
    exact hx.eq_nil_of_recognizes few hv hd

/-- A gesture and another one that extends it. -/
def extended : Automaton :=
  (∅ : Automaton).addAll
    [⟨1, 2, ⟨"D1", [], ∅⟩⟩, ⟨1, 3, ⟨"D1", [], ∅⟩⟩, ⟨3, 4, ⟨"U1", [], ∅⟩⟩]

/-- The deterministic automaton of `extended`. -/
def extendedMerged : Automaton :=
  (∅ : Automaton).addAll [⟨1, 2, ⟨"D1", [], ∅⟩⟩, ⟨2, 3, ⟨"U1", [], ∅⟩⟩]

/-- The report on `extended`: the second state stands for both gestures after their first
label. -/
def extendedReport : DeterminizationReport where
  states := 3
  transitions := 2
  stateSets := (((∅ : OrderedMap StateId StateSet).insert 1 {1}).insert 2 (.ofList [2, 3])).insert
    3 {4}

/-- The two gestures are merged as far as they agree. -/
theorem determinize_extended :
    extended.determinize (some defaultStateLimit) = .ok (extendedMerged, extendedReport) := by
  decide +kernel

/-- The numbers are enough for the sets of the two gestures. -/
theorem few_extended : extended.attainedCount < UInt32.size - 1 :=
  (attainedCount_le_of_limit determinize_extended).trans_lt (by decide)

/-- The longer gesture is accepted at its end, and nothing is read after it. -/
theorem determinize_recognizes_maximal_extended :
    extended.determinize (some defaultStateLimit) = .ok (extendedMerged, extendedReport) ∧
    extended.attainedCount < UInt32.size - 1 ∧
    (∃ S, extendedReport.stateSets.get? 3 = some S ∧
      (extendedMerged.accepts 3 = true ↔ ∀ s ∈ S, extended.accepts s = true)) ∧
    (extendedMerged.Recognizes ["D1", "U1"] ↔ (∃ s, extended.Reaches ["D1", "U1"] s) ∧
      ∀ l, ¬ ∃ s, extended.Reaches (["D1", "U1"] ++ [l]) s) ∧
    extendedMerged.Recognizes ["D1", "U1"] ∧
    ¬ ∃ d, extendedMerged.Reaches (["D1", "U1"] ++ ["U1"]) d := by
  obtain ⟨hstates, hwords, hprefix⟩ :=
    determinize_recognizes_maximal determinize_extended few_extended
  have hread : extendedMerged.Reaches ["D1", "U1"] 3 :=
    path_cons.2 ⟨⟨1, 2, ⟨"D1", [], ∅⟩⟩, by decide +kernel, by decide, rfl,
      path_cons.2 ⟨⟨2, 3, ⟨"U1", [], ∅⟩⟩, by decide +kernel, by decide, rfl, .nil 3⟩⟩
  have hrecognizes : extendedMerged.Recognizes ["D1", "U1"] := ⟨3, hread, by decide +kernel⟩
  exact ⟨determinize_extended, few_extended, hstates 3 (by decide +kernel),
    hwords _ (by decide), hrecognizes, hprefix _ _ (by decide) hrecognizes⟩

/-- The deterministic automaton accepts no more words than the automaton. It accepts a word as
the automaton does exactly when the word, if it leads to an accepting state, leads to accepting
states only. -/
theorem determinize_recognizes_iff (h : a.determinize limit = .ok (dfa, report))
    (few : a.attainedCount < UInt32.size - 1) {w : List String} (hw : w ≠ []) :
    (dfa.Recognizes w → a.Recognizes w) ∧
    ((dfa.Recognizes w ↔ a.Recognizes w) ↔
      (a.Recognizes w → ∀ s, a.Reaches w s → a.accepts s = true)) := by
  obtain ⟨x, hx, rfl, rfl⟩ := determinize_finished h
  have few := hx.length_lt few
  have hiff := hx.recognizes_iff few hw
  have hsound : x.finished.Recognizes w → a.Recognizes w := by
    intro hr
    obtain ⟨⟨s, hs⟩, hall⟩ := hiff.1 hr
    exact ⟨s, hs, hall s hs⟩
  refine ⟨hsound, ?_, ?_⟩
  · intro hagree hr
    exact (hiff.1 (hagree.2 hr)).2
  · intro hall
    refine ⟨hsound, ?_⟩
    rintro ⟨s, hs, haccepts⟩
    exact hiff.2 ⟨⟨s, hs⟩, hall ⟨s, hs, haccepts⟩⟩

/-- The word of the longer gesture is accepted by both. -/
theorem determinize_recognizes_iff_extended :
    extended.determinize (some defaultStateLimit) = .ok (extendedMerged, extendedReport) ∧
    extended.attainedCount < UInt32.size - 1 ∧ ["D1", "U1"] ≠ [] ∧
    (extendedMerged.Recognizes ["D1", "U1"] → extended.Recognizes ["D1", "U1"]) ∧
    ((extendedMerged.Recognizes ["D1", "U1"] ↔ extended.Recognizes ["D1", "U1"]) ↔
      (extended.Recognizes ["D1", "U1"] →
        ∀ s, extended.Reaches ["D1", "U1"] s → extended.accepts s = true)) :=
  ⟨determinize_extended, few_extended, by decide,
    determinize_recognizes_iff determinize_extended few_extended (by decide)⟩

/-- The word of the shorter gesture is accepted before but not after the determinization. -/
theorem shorter_gesture_lost :
    extended.determinize (some defaultStateLimit) = .ok (extendedMerged, extendedReport) ∧
    extended.Recognizes ["D1"] ∧ ¬ extendedMerged.Recognizes ["D1"] := by
  refine ⟨determinize_extended, ⟨2, ?_, by decide +kernel⟩, ?_⟩
  · exact path_cons.2 ⟨⟨1, 2, ⟨"D1", [], ∅⟩⟩, by decide +kernel, by decide, rfl, .nil 2⟩
  · rintro ⟨d, hd, haccepts⟩
    obtain ⟨e, he, hsource, -, hrest⟩ := path_cons.1 hd
    obtain rfl := path_nil.1 hrest
    have hleft : ∀ e ∈ extendedMerged.edges, e.source = extendedMerged.start →
        extendedMerged.accepts e.target = false := by decide +kernel
    rw [hleft e he hsource] at haccepts
    exact Bool.false_ne_true haccepts

end Automaton

end TouchAutomata
