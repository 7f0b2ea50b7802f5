import TouchAutomata.Proofs.Determinization.WordSimulation

/-!
# Explorations that halt

The members of a set that was found are states, so an exploration of an automaton that has its
start state finds all states it asks for. It halts at the limit alone, at a stage whose next label
leads to a new set (`ofAutomaton_atLimit`). This settles which fault a determinization ends with
(`determinizeInto_outcome`).
-/

set_option autoImplicit false

namespace TouchAutomata

namespace Exploration

variable {a target : Automaton} {limit : StateLimit} {x : Exploration} {halt : Halt}
variable {taken : List (StateSet × StateId)} {done todo : List Task}
variable {n : StateId} {g : LabelGroup}

/-- An exploration halted at a stage whose next label leads to a new set, when the limit allowed no
more sets. -/
inductive AtLimit (a : Automaton) (limit : StateLimit) (target : Automaton) : Halt → Prop where
  | full {taken : List (StateSet × StateId)} {done todo : List Task} {x : Exploration}
      {n : StateId} {g : LabelGroup} {c : Nat}
      (stage : Stage a limit target taken done ((n, g) :: todo) x)
      (new : x.number? g.targets = none) (bounded : limit = some c)
      (reached : c ≤ x.found.length) : AtLimit a limit target ⟨.stateLimitExceeded c, x⟩

/-- A label cannot be followed exactly if it leads to a new set and the limit allows no more. -/
theorem follow_eq_error : follow limit n x g = .error halt ↔
    ∃ c, limit = some c ∧ c ≤ x.found.length ∧ x.number? g.targets = none ∧
      halt = ⟨.stateLimitExceeded c, x⟩ := by
  unfold follow
  cases hm : x.number? g.targets with
  | some m => simp
  | none =>
    cases limit with
    | none => simp
    | some c =>
      by_cases hc : c ≤ x.found.length
      · simp [Option.filter_some, isFull, hc, eq_comm]
      · simp [Option.filter_some, isFull, hc]

/-- If one of the labels of a set cannot be followed, the exploration halts at the limit. -/
theorem Stage.atLimit_of_foldlM {gs : List LabelGroup}
    (h : Stage a limit target taken done (gs.map fun g => (n, g)) x)
    (hhalt : gs.foldlM (Exploration.follow limit n) x = .error halt) :
    AtLimit a limit target halt := by
  induction gs generalizing done x with
  | nil => simp [pure, Except.pure] at hhalt
  | cons g gs ih =>
    rw [List.foldlM_cons, bind_eq_error] at hhalt
    rcases hhalt with hstep | ⟨y, hstep, hrest⟩
    · obtain ⟨c, hlimit, hreached, hnew, rfl⟩ := follow_eq_error.1 hstep
      exact .full h hnew hlimit hreached
    · exact ih (Stage.follow h hstep) hrest

/-- What is pending has members that are states of the automaton. -/
theorem Stage.hasState_of_mem_pending (h : Stage a limit target taken done todo x)
    (hstart : a.hasState a.start = true) {p : StateSet × StateId} (hp : p ∈ x.pending) :
    ∀ s ∈ p.1, a.hasState s = true := by
  intro s hs
  have hfound : p ∈ x.found := by
    rw [h.found_eq]
    exact List.mem_append_right _ hp
  exact (h.attained p hfound).hasState hstart hs

/-- An exploration from the start state of the automaton halts for no other reason than the
limit. -/
theorem explore_atLimit {rounds : Nat} (h : Stage a limit target taken done [] x)
    (hstart : a.hasState a.start = true) (hhalt : explore a limit rounds x = .error halt) :
    AtLimit a limit target halt := by
  induction rounds generalizing taken done x with
  | zero => simp [explore] at hhalt
  | succ rounds ih =>
    cases hp : x.pending with
    | nil =>
      rw [explore_of_nil hp] at hhalt
      cases hhalt
    | cons p rest =>
      have hmembers := h.hasState_of_mem_pending hstart (p := p) (by simp [hp])
      have htake := h.take_groups hp
      rw [explore_of_cons hp, expand_of_hasState hmembers, bind_eq_error] at hhalt
      rcases hhalt with hgroups | ⟨y, hgroups, hrest⟩
      · exact htake.atLimit_of_foldlM hgroups
      · exact ih (htake.of_foldlM hgroups) hrest

/-- An exploration of an automaton that has its start state halts at the limit or not at all. -/
theorem ofAutomaton_atLimit (hstart : a.hasState a.start = true)
    (hhalt : ofAutomaton a limit target = .error halt) : AtLimit a limit target halt :=
  explore_atLimit .begun hstart hhalt

/-- Without a limit the exploration of an automaton that has its start state ends well. -/
theorem exists_ofAutomaton_unlimited (hstart : a.hasState a.start = true) (target : Automaton) :
    ∃ x, ofAutomaton a none target = .ok x := by
  cases hx : ofAutomaton a none target with
  | ok x => exact ⟨x, rfl⟩
  | error halt =>
    cases ofAutomaton_atLimit hstart hx with
    | full _ _ bounded => cases bounded

/-- Without its start state an automaton is not explored at all. -/
theorem ofAutomaton_of_missing (hmissing : a.hasState a.start = false) :
    ofAutomaton a limit target =
      .error ⟨.stateNotFound a.start, { begin a.start target with pending := [] }⟩ := by
  obtain ⟨rounds, hrounds⟩ := Nat.exists_eq_succ_of_ne_zero (Nat.two_pow_pos a.stateCount).ne'
  have hpow : Nat.pow 2 a.stateCount = rounds + 1 := hrounds
  have hexpand : expand a limit { begin a.start target with pending := [] } {a.start}
      Automaton.defaultStart =
        .error ⟨.stateNotFound a.start, { begin a.start target with pending := [] }⟩ := by
    simp [expand, hmissing]
  have hpending : (begin a.start target).pending = [({a.start}, Automaton.defaultStart)] := rfl
  rw [ofAutomaton, hpow, explore_of_cons hpending, hexpand]
  rfl

end Exploration

namespace Automaton

variable {a : Automaton} {limit : StateLimit}

/-- Without a limit, an automaton that has its start state can be made deterministic. -/
theorem determinize_unlimited (h : a.hasState a.start = true) :
    ∃ dfa report, a.determinize none = .ok (dfa, report) := by
  obtain ⟨x, hx⟩ := Exploration.exists_ofAutomaton_unlimited h ∅
  rw [determinize_of_hasState h, hx]
  exact ⟨_, _, rfl⟩

/-- A target that has states is refused, whatever the automaton is. An automaton without states
gives the report without states, and one that does not have its start state gives a fault that names
this state; the target stays as it was. Any other automaton is made deterministic unless this would
exceed the limit. -/
theorem determinizeInto_outcome (a target : Automaton) (limit : StateLimit) :
    (target.isEmpty = false →
      a.determinizeInto target limit =
        (.error (.destinationNotEmpty target.stateCount), target)) ∧
    (target.isEmpty = true → a.isEmpty = true →
      a.determinizeInto target limit = (.ok ⟨0, 0, ∅⟩, target)) ∧
    (target.isEmpty = true → a.isEmpty = false → a.hasState a.start = false →
      a.determinizeInto target limit = (.error (.stateNotFound a.start), target)) ∧
    (target.isEmpty = true → a.isEmpty = false → a.hasState a.start = true →
      (∃ report, (a.determinizeInto target limit).1 = .ok report) ∨
      ∃ c, limit = some c ∧
        (a.determinizeInto target limit).1 = .error (.stateLimitExceeded c)) := by
  refine ⟨?_, ?_, ?_, ?_⟩
  · intro htarget
    unfold determinizeInto
    rw [htarget]
    rfl
  · intro htarget ha
    unfold determinizeInto
    rw [htarget, ha]
    rfl
  · intro htarget ha hmissing
    unfold determinizeInto
    rw [htarget, ha, Exploration.ofAutomaton_of_missing hmissing]
    rfl
  · intro htarget ha hstart
    unfold determinizeInto
    rw [htarget, ha]
    cases hx : Exploration.ofAutomaton a limit target with
    | ok x => exact .inl ⟨_, rfl⟩
    | error halt =>
      cases Exploration.ofAutomaton_atLimit hstart hx with
      | full _ _ bounded => exact .inr ⟨_, bounded, rfl⟩

/-- Each case, on `forked` and on automata without states. -/
theorem determinizeInto_outcome_forked :
    forked.determinizeInto forked none = (.error (.destinationNotEmpty 5), forked) ∧
    (∅ : Automaton).determinizeInto ((∅ : Automaton).withStart 7) none =
      (.ok ⟨0, 0, ∅⟩, (∅ : Automaton).withStart 7) ∧
    (forked.withStart 9).determinizeInto ((∅ : Automaton).withStart 7) none =
      (.error (.stateNotFound 9), (∅ : Automaton).withStart 7) ∧
    ∃ report, (forked.determinizeInto ((∅ : Automaton).withStart 7) none).1 = .ok report := by
  obtain ⟨hoccupied, -, -, -⟩ := determinizeInto_outcome forked forked none
  obtain ⟨-, hempty, -, -⟩ :=
    determinizeInto_outcome (∅ : Automaton) ((∅ : Automaton).withStart 7) none
  obtain ⟨-, -, hmissing, -⟩ :=
    determinizeInto_outcome (forked.withStart 9) ((∅ : Automaton).withStart 7) none
  obtain ⟨-, -, -, hexplored⟩ :=
    determinizeInto_outcome forked ((∅ : Automaton).withStart 7) none
  refine ⟨hoccupied (by decide +kernel), hempty rfl rfl,
    hmissing rfl (by decide +kernel) (by decide +kernel), ?_⟩
  rcases hexplored rfl (by decide +kernel) (by decide +kernel) with hok | ⟨c, hlimit, -⟩
  · exact hok
  · cases hlimit

end Automaton

end TouchAutomata
