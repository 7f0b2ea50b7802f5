import TouchAutomata.Proofs.Automaton.Runs
import TouchAutomata.Proofs.Determinization.DeterminizationOutcome

/-!
# Words and sets of states

The main statement is `determinize_run`: the deterministic automaton of an automaton reads the
words that lead to some state, each through one run, and the run ends in the state that stands
for the set of all states that the word leads to.
-/

set_option autoImplicit false

namespace TouchAutomata

namespace Automaton

variable {a : Automaton} {v w : List String}

/-- What leads to some state also does so without its end. -/
theorem exists_reaches_of_append (h : ∃ s, a.Reaches (v ++ w) s) : ∃ s, a.Reaches v s := by
  obtain ⟨s, hs⟩ := h
  obtain ⟨r, hr, -⟩ := path_append.1 hs
  exact ⟨r, hr⟩

end Automaton

namespace Exploration

variable {a target : Automaton} {limit : StateLimit} {x : Exploration}
variable {S : StateSet} {d d' : StateId} {l : String} {v w : List String}

/-- From the number of a set, a label leads to the number of the set it leads to and to no other
state. -/
theorem Finished.next_eq (h : Finished a limit target x) (no_edges : target.edges = [])
    (few : x.found.length < UInt32.size) (hS : (S, d) ∈ x.found)
    (hd' : (a.afterLabel S l, d') ∈ x.found) : x.finished.next d l = .ok [d'] := by
  apply Automaton.next_eq_singleton
  intro r
  rw [h.edge_iff no_edges few hS]
  constructor
  · intro hr
    exact (Stage.numbered h).number_unique hr hd'
  · rintro rfl
    exact hd'

/-- Where a word has led, its next label leads to one state. -/
theorem Finished.exists_next_eq (h : Finished a limit ∅ x) (few : x.found.length < UInt32.size)
    (hw : ∃ s, a.Reaches (v ++ l :: w) s) (hd : x.finished.Reaches v d) :
    ∃ d', x.finished.next d l = .ok [d'] := by
  have hconcat : ∃ s, a.Reaches (v ++ [l]) s :=
    Automaton.exists_reaches_of_append (w := w) (by simpa using hw)
  obtain ⟨d', hd'⟩ := (h.exists_reaches_iff few).2 hconcat
  rw [h.reaches_iff few] at hd hd'
  rw [Automaton.reached_concat] at hd'
  exact ⟨d', h.next_eq rfl few hd hd'⟩

/-- If an edge leaves the start state, every word ends in a state of the deterministic
automaton. -/
theorem Finished.hasState_of_reaches (h : Finished a limit ∅ x)
    (few : x.found.length < UInt32.size) (hstart : ∃ e ∈ a.edges, e.source = a.start)
    (hd : x.finished.Reaches w d) : x.finished.hasState d = true := by
  obtain ⟨e, he, hsource⟩ := hstart
  apply Automaton.Path.hasState hd
  rw [Automaton.hasState_iff, Automaton.mem_states]
  have hmem : e.source ∈ ({a.start} : StateSet) := by simp [hsource]
  obtain ⟨f, hf, hfsource⟩ := (h.exists_edge_iff rfl few (Stage.mem_start h)).2 ⟨e, he, hmem⟩
  exact ⟨f, hf, .inl (hfsource.trans h.start_finished.symm)⟩

end Exploration

namespace Automaton

variable {a dfa : Automaton} {limit : StateLimit} {report : DeterminizationReport}

/-- The deterministic automaton has a run on the words that lead to some state. The run is the
only one, since each of its labels leads to one state, and it ends in the state that stands for
the set of all states that the word leads to. -/
theorem determinize_run (h : a.determinize limit = .ok (dfa, report))
    (few : a.attainedCount < UInt32.size - 1) (hstart : ∃ e ∈ a.edges, e.source = a.start)
    (w : List String) :
    dfa.start = 1 ∧
    ((∃ ds, dfa.Run dfa.start w ds) ↔ ∃ s, a.Reaches w s) ∧
    ∀ ds, dfa.Run dfa.start w ds →
      (∀ ds', dfa.Run dfa.start w ds' → ds' = ds) ∧
      (∀ v l u, w = v ++ l :: u → ∀ d, dfa.Reaches v d → ∃ d', dfa.next d l = .ok [d']) ∧
      ∃ S, report.stateSets.get? (ds.getLastD dfa.start) = some S ∧
        ∀ s, s ∈ S ↔ a.Reaches w s := by
  obtain ⟨x, hx, rfl, rfl⟩ := determinize_finished h
  have few := hx.length_lt few
  have hruns : (∃ ds, x.finished.Run x.finished.start w ds) ↔ ∃ s, a.Reaches w s := by
    rw [← hx.exists_reaches_iff few]
    simp only [Reaches, path_iff_run]
    grind
  refine ⟨hx.start_finished, hruns, ?_⟩
  intro ds hds
  have hsome := hruns.1 ⟨ds, hds⟩
  have hnext : ∀ v l u, w = v ++ l :: u → ∀ d, x.finished.Reaches v d →
      ∃ d', x.finished.next d l = .ok [d'] := by
    rintro v l u rfl d hd
    exact hx.exists_next_eq few hsome hd
  have hlast : x.finished.Reaches w (ds.getLastD x.finished.start) :=
    path_iff_run.2 ⟨ds, hds, rfl⟩
  refine ⟨fun ds' hds' => hds.unique hds' hnext, hnext, a.reached w, ?_, fun s => mem_reached⟩
  rw [hx.get?_report few]
  exact ⟨(hx.reaches_iff few).1 hlast, hx.hasState_of_reaches few hstart hlast⟩

/-- Two gestures that begin with the same label; one of them can be drawn out. -/
def forked : Automaton :=
  (∅ : Automaton).addAll
    [⟨1, 2, ⟨"D1", [], .ofList [3, 1]⟩⟩, ⟨1, 3, ⟨"D1", [], .ofList [2]⟩⟩, ⟨2, 2, ⟨"M1", [], ∅⟩⟩,
      ⟨2, 4, ⟨"U1", [], ∅⟩⟩, ⟨3, 5, ⟨"U2", [], ∅⟩⟩]

/-- The deterministic automaton of `forked`. -/
def forkedMerged : Automaton :=
  (∅ : Automaton).addAll
    [⟨1, 2, ⟨"D1", [], .ofList [1, 2, 3]⟩⟩, ⟨2, 3, ⟨"M1", [], ∅⟩⟩, ⟨2, 4, ⟨"U1", [], ∅⟩⟩,
      ⟨2, 5, ⟨"U2", [], ∅⟩⟩, ⟨3, 3, ⟨"M1", [], ∅⟩⟩, ⟨3, 4, ⟨"U1", [], ∅⟩⟩]

/-- The report on `forked`: the second state stands for both gestures. -/
def forkedReport : DeterminizationReport where
  states := 5
  transitions := 6
  stateSets :=
    ((((∅ : OrderedMap StateId StateSet).insert 1 {1}).insert 2 (.ofList [2, 3])).insert 3
      {2}).insert 4 {4} |>.insert 5 {5}

/-- The two gestures of `forked` are merged in their common first touch. -/
theorem determinize_forked :
    forked.determinize (some defaultStateLimit) = .ok (forkedMerged, forkedReport) := by
  decide +kernel

/-- The numbers are enough for the sets of `forked`. -/
theorem few_forked : forked.attainedCount < UInt32.size - 1 :=
  (attainedCount_le_of_limit determinize_forked).trans_lt (by decide)

/-- Drawing out a gesture that shares its beginning with another one. -/
theorem determinize_run_forked :
    forked.determinize (some defaultStateLimit) = .ok (forkedMerged, forkedReport) ∧
    forked.attainedCount < UInt32.size - 1 ∧ (∃ e ∈ forked.edges, e.source = forked.start) ∧
    forkedMerged.Run forkedMerged.start ["D1", "M1", "M1"] [2, 3, 3] ∧
    (∃ s, forked.Reaches ["D1", "M1", "M1"] s) ∧
    (∀ ds, forkedMerged.Run forkedMerged.start ["D1", "M1", "M1"] ds → ds = [2, 3, 3]) ∧
    ∃ S, forkedReport.stateSets.get? 3 = some S ∧
      ∀ s, s ∈ S ↔ forked.Reaches ["D1", "M1", "M1"] s := by
  have hstart : ∃ e ∈ forked.edges, e.source = forked.start := by decide +kernel
  obtain ⟨-, hruns, hrun⟩ :=
    determinize_run determinize_forked few_forked hstart ["D1", "M1", "M1"]
  have hread : forkedMerged.Run forkedMerged.start ["D1", "M1", "M1"] [2, 3, 3] := by
    refine run_cons.2 ⟨⟨1, 2, ⟨"D1", [], .ofList [1, 2, 3]⟩⟩, by decide +kernel, by decide, rfl,
      _, rfl, ?_⟩
    refine run_cons.2 ⟨⟨2, 3, ⟨"M1", [], ∅⟩⟩, by decide +kernel, rfl, rfl, _, rfl, ?_⟩
    exact run_cons.2 ⟨⟨3, 3, ⟨"M1", [], ∅⟩⟩, by decide +kernel, rfl, rfl, _, rfl, .nil 3⟩
  obtain ⟨hunique, -, hset⟩ := hrun _ hread
  exact ⟨determinize_forked, few_forked, hstart, hread, hruns.1 ⟨_, hread⟩, hunique, hset⟩

end Automaton

end TouchAutomata
