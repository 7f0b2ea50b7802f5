import TouchAutomata.Proofs.Determinization.HaltedExploration

/-!
# Limits on the number of states

A limit changes nothing of what an exploration does before it halts (`explore_unlimited`), and it
halts only when more sets are attained than the limit allows (`AtLimit.lt_attainedCount`). So a
determinization succeeds exactly under the limits that allow all attained sets, with the result it
has without a limit (`determinize_limit`).
-/

set_option autoImplicit false

namespace TouchAutomata

namespace Exploration

variable {a target : Automaton} {limit : StateLimit} {x y : Exploration} {halt : Halt}
variable {taken : List (StateSet × StateId)} {done todo : List Task}
variable {n : StateId} {g : LabelGroup}

/-! ## Without a limit -/

/-- A label that is followed under a limit is followed in the same way without one. -/
theorem follow_unlimited (h : follow limit n x g = .ok y) : follow none n x g = .ok y := by
  rw [follow_eq_ok] at h ⊢
  rcases h with hknown | ⟨hnew, -, rfl⟩
  · exact .inl hknown
  · exact .inr ⟨hnew, by simp, rfl⟩

/-- A stage under a limit is a stage without one. -/
theorem Stage.unlimited (h : Stage a limit target taken done todo x) :
    Stage a none target taken done todo x := by
  induction h with
  | begun => exact .begun
  | take _ next ih => exact ih.take next
  | follow _ step ih => exact Stage.follow ih (follow_unlimited step)

/-- Labels that are followed under a limit are followed in the same way without one. -/
theorem foldlM_follow_unlimited {gs : List LabelGroup}
    (h : gs.foldlM (follow limit n) x = .ok y) : gs.foldlM (follow none n) x = .ok y := by
  induction gs generalizing x with
  | nil => exact h
  | cons g gs ih =>
    rw [List.foldlM_cons, bind_eq_ok] at h ⊢
    obtain ⟨z, hstep, hrest⟩ := h
    exact ⟨z, follow_unlimited hstep, ih hrest⟩

/-- A set that is expanded under a limit is expanded in the same way without one. -/
theorem expand_unlimited {S : StateSet} (h : expand a limit x S n = .ok y) :
    expand a none x S n = .ok y := by
  rw [expand_eq_ok] at h ⊢
  exact ⟨h.1, foldlM_follow_unlimited h.2⟩

/-- An exploration that ends well under a limit ends in the same way without one. -/
theorem explore_unlimited {rounds : Nat} (h : explore a limit rounds x = .ok y) :
    explore a none rounds x = .ok y := by
  induction rounds generalizing x with
  | zero => exact h
  | succ rounds ih =>
    cases hp : x.pending with
    | nil =>
      rw [explore_of_nil hp] at h ⊢
      exact h
    | cons p rest =>
      rw [explore_of_cons hp, bind_eq_ok] at h ⊢
      obtain ⟨z, hz, hrest⟩ := h
      exact ⟨z, expand_unlimited hz, ih hrest⟩

/-! ## Sets beyond the limit -/

/-- No more sets are found at any stage than are attained. -/
theorem Stage.length_le_attainedCount (h : Stage a limit target taken done todo x)
    (hstart : a.hasState a.start = true) : x.found.length ≤ a.attainedCount := by
  obtain ⟨dfa, report, hdfa⟩ := Automaton.determinize_unlimited hstart
  obtain ⟨y, hy, -, -⟩ := Automaton.determinize_finished hdfa
  have hsub : x.found.map Prod.fst ⊆ y.found.map Prod.fst := by
    intro S hS
    obtain ⟨p, hp, rfl⟩ := List.mem_map.1 hS
    obtain ⟨m, hm⟩ := hy.exists_mem_found_iff.2 (h.attained p hp)
    exact List.mem_map.2 ⟨_, hm, rfl⟩
  have hlength := (h.numbered.distinct.subperm hsub).length_le
  rw [List.length_map, List.length_map, hy.length_eq] at hlength
  exact hlength

/-- An exploration that halts at the limit has met one set more than the limit allows, that of the
start state apart. -/
theorem AtLimit.lt_attainedCount {c : Nat} (h : AtLimit a (some c) target halt)
    (hstart : a.hasState a.start = true) : max 1 c < a.attainedCount := by
  cases h with
  | @full taken done todo x n g c' stage new bounded reached =>
    obtain rfl := Option.some.inj bounded
    -- without the limit the exploration would have gone on to find the set
    have hstep : follow none n x g = .ok ((x.discover g.targets).lay n x.fresh g.touch) :=
      follow_eq_ok.2 (.inr ⟨new, by simp, rfl⟩)
    have hlength := (Stage.follow stage.unlimited hstep).length_le_attainedCount hstart
    rw [found_lay, found_discover, List.length_append, List.length_singleton] at hlength
    have hpos := List.length_pos_of_mem stage.mem_start
    omega

end Exploration

namespace Automaton

variable {a dfa : Automaton} {limit : StateLimit} {report : DeterminizationReport} {c : Nat}

/-- A determinization succeeds under the limits that allow all attained sets; the set of the start
state is always allowed. -/
theorem exists_determinize_iff (hstart : a.hasState a.start = true) :
    (∃ r, a.determinize (some c) = .ok r) ↔ a.attainedCount ≤ max 1 c := by
  constructor
  · rintro ⟨⟨dfa, report⟩, h⟩
    exact attainedCount_le_of_limit h
  · intro hle
    rw [determinize_of_hasState hstart]
    cases hx : Exploration.ofAutomaton a (some c) ∅ with
    | ok x => exact ⟨_, rfl⟩
    | error halt =>
      have hlt := (Exploration.ofAutomaton_atLimit hstart hx).lt_attainedCount hstart
      omega

/-- A limit below the number of attained sets is exceeded. -/
theorem determinize_of_lt_attainedCount (hstart : a.hasState a.start = true)
    (hlt : max 1 c < a.attainedCount) :
    a.determinize (some c) = .error (.stateLimitExceeded c) := by
  rw [determinize_of_hasState hstart]
  cases hx : Exploration.ofAutomaton a (some c) ∅ with
  | ok x =>
    obtain ⟨hfinished, -⟩ := Exploration.ofAutomaton_finished hx
    have hle := hfinished.length_eq ▸ Exploration.Stage.length_le hfinished
    omega
  | error halt =>
    cases Exploration.ofAutomaton_atLimit hstart hx with
    | full _ _ bounded => rw [Option.some.inj bounded]

/-- What is made under a limit is made without one too. -/
theorem determinize_none_of_ok (hstart : a.hasState a.start = true)
    (h : a.determinize limit = .ok (dfa, report)) : a.determinize none = .ok (dfa, report) := by
  rw [determinize_of_hasState hstart] at h ⊢
  cases hx : Exploration.ofAutomaton a limit ∅ with
  | error halt =>
    rw [hx] at h
    cases h
  | ok x =>
    rw [hx] at h
    have hnone : Exploration.ofAutomaton a none ∅ = .ok x := Exploration.explore_unlimited hx
    rw [hnone]
    exact h

/-- Under a limit a determinization succeeds exactly when no more sets are attained than the limit
allows, and then with the result that it has without a limit. Else it fails for this limit. -/
theorem determinize_limit (hstart : a.hasState a.start = true) (positive : 1 ≤ c) :
    ((∃ dfa report, a.determinize (some c) = .ok (dfa, report)) ↔ a.attainedCount ≤ c) ∧
    ((¬ ∃ dfa report, a.determinize (some c) = .ok (dfa, report)) →
      a.determinize (some c) = .error (.stateLimitExceeded c)) ∧
    ∀ dfa report, a.determinize (some c) = .ok (dfa, report) →
      a.determinize none = .ok (dfa, report) := by
  have hmax : max 1 c = c := max_eq_right positive
  have hiff : (∃ dfa report, a.determinize (some c) = .ok (dfa, report)) ↔
      a.attainedCount ≤ c := by
    rw [← hmax, ← exists_determinize_iff hstart, Prod.exists, hmax]
  refine ⟨hiff, fun hfails => ?_, fun dfa report h => determinize_none_of_ok hstart h⟩
  apply determinize_of_lt_attainedCount hstart
  rw [hiff] at hfails
  omega

/-- The five sets of `forked` are too many for a limit of four. -/
theorem determinize_limit_forked :
    forked.hasState forked.start = true ∧ forked.attainedCount = 5 ∧
    forked.determinize (some 4) = .error (.stateLimitExceeded 4) ∧
    forked.determinize (some 5) = .ok (forkedMerged, forkedReport) ∧
    forked.determinize none = .ok (forkedMerged, forkedReport) := by
  have hstart : forked.hasState forked.start = true := by decide +kernel
  have hfive : forked.determinize (some 5) = .ok (forkedMerged, forkedReport) := by
    decide +kernel
  have hfour : ¬ ∃ dfa report, forked.determinize (some 4) = .ok (dfa, report) := by
    rintro ⟨dfa, report, h⟩
    have hisOk : (forked.determinize (some 4)).isOk = false := by decide +kernel
    rw [h] at hisOk
    cases hisOk
  obtain ⟨hiff, -, hsame⟩ := determinize_limit (c := 5) hstart (by decide)
  obtain ⟨hiff', hfails, -⟩ := determinize_limit (c := 4) hstart (by decide)
  have hle : forked.attainedCount ≤ 5 := hiff.1 ⟨_, _, hfive⟩
  have hlt : ¬ forked.attainedCount ≤ 4 := mt hiff'.2 hfour
  exact ⟨hstart, by omega, hfails hfour, hfive, hsame _ _ hfive⟩

end Automaton

end TouchAutomata
