import TouchAutomata.Determinization.Exploration
import Mathlib.Data.List.Basic

/-!
# The stages of an exploration

An exploration lays one edge after the other: for the label groups of the set it has taken, and
for the sets it has found. A `Stage` tells which of these tasks are done, which are to do before
the next set is taken, and what was found by then. An invariant of the exploration is proved by
induction over its stages, of which there are three kinds: it begins, it takes a pending set, or
it follows one label (`follow_eq_ok` says what that changes).

`Rounds` tells which sets are taken one after the other, and sets no bound on how many. A round
determines the next one, so any rounds are the beginning of those after which nothing is pending
(`Rounds.isPrefixOf`), and they lead from stage to stage (`Rounds.stage`). An exploration that ends
well has gone through rounds, and so it ends at a stage (`explore_stage`). It does not depend on
how many rounds it may take if they suffice (`explore_of_le`).
-/

set_option autoImplicit false

namespace TouchAutomata

section Outcomes

variable {ε α β : Type} {r : Except ε α} {k : α → Except ε β}

/-- Two steps end well if the first does and the second does after it. -/
theorem bind_eq_ok {b : β} : r >>= k = .ok b ↔ ∃ c, r = .ok c ∧ k c = .ok b := by
  cases r with
  | error e => simp [bind, Except.bind]
  | ok c => simp [bind, Except.bind]

/-- Two steps fail if the first does, or if it ends well and the second fails after it. -/
theorem bind_eq_error {e : ε} :
    r >>= k = .error e ↔ r = .error e ∨ ∃ c, r = .ok c ∧ k c = .error e := by
  cases r with
  | error e' => simp [bind, Except.bind]
  | ok c => simp [bind, Except.bind]

end Outcomes

namespace Exploration

/-- One edge to lay: from a number, for a label group. -/
abbrev Task := StateId × LabelGroup

/-- The edges to lay for some sets that were found. -/
def tasksOf (a : Automaton) (found : List (StateSet × StateId)) : List Task :=
  found.flatMap fun p => (a.labelGroups p.1).values.map fun g => (p.2, g)

variable {a target : Automaton} {limit : StateLimit} {x y z : Exploration}
variable {taken ps qs : List (StateSet × StateId)} {done todo : List Task}

/-! ## What one step changes -/

/-- A set that is discovered stands behind those found before. -/
@[simp] theorem found_discover (x : Exploration) (S : StateSet) :
    (x.discover S).found = x.found ++ [(S, x.fresh)] := rfl

/-- A set that is discovered is pending behind the others. -/
@[simp] theorem pending_discover (x : Exploration) (S : StateSet) :
    (x.discover S).pending = x.pending ++ [(S, x.fresh)] := rfl

/-- A discovery takes one number. -/
@[simp] theorem fresh_discover (x : Exploration) (S : StateSet) :
    (x.discover S).fresh = x.fresh + 1 := rfl

/-- A set that is discovered stands under the number it gets. -/
@[simp] theorem stateSets_discover (x : Exploration) (S : StateSet) :
    (x.discover S).stateSets = x.stateSets.insert x.fresh S := rfl

/-- A discovery lays no edge. -/
@[simp] theorem result_discover (x : Exploration) (S : StateSet) :
    (x.discover S).result = x.result := rfl

/-- No set is found as an edge is laid. -/
@[simp] theorem found_lay (x : Exploration) (m n : StateId) (t : Touch) :
    (x.lay m n t).found = x.found := rfl

/-- No set becomes pending as an edge is laid. -/
@[simp] theorem pending_lay (x : Exploration) (m n : StateId) (t : Touch) :
    (x.lay m n t).pending = x.pending := rfl

/-- An edge takes no number. -/
@[simp] theorem fresh_lay (x : Exploration) (m n : StateId) (t : Touch) :
    (x.lay m n t).fresh = x.fresh := rfl

/-- The sets stay under their numbers as an edge is laid. -/
@[simp] theorem stateSets_lay (x : Exploration) (m n : StateId) (t : Touch) :
    (x.lay m n t).stateSets = x.stateSets := rfl

/-- An edge that is laid is added to the result. -/
@[simp] theorem result_lay (x : Exploration) (m n : StateId) (t : Touch) :
    (x.lay m n t).result = x.result.add ⟨m, n, t⟩ := rfl

/-- A label is followed to the number of a set found before, or to the next number, which a new
set gets if the limit allows one more. -/
theorem follow_eq_ok {n : StateId} {g : LabelGroup} :
    follow limit n x g = .ok y ↔
      (∃ m, x.number? g.targets = some m ∧ y = x.lay n m g.touch) ∨
      (x.number? g.targets = none ∧ (∀ c, limit = some c → x.found.length < c) ∧
        y = (x.discover g.targets).lay n x.fresh g.touch) := by
  cases hm : x.number? g.targets with
  | some m =>
    simp only [follow, hm, Except.ok.injEq]
    grind
  | none =>
    simp only [follow, hm]
    cases limit with
    | none => simp [eq_comm]
    | some c =>
      by_cases hc : c ≤ x.found.length
      · have hfull : ¬ x.found.length < c := by omega
        simp [Option.filter_some, isFull, hc, hfull]
      · have hfree : x.found.length < c := by omega
        simp [Option.filter_some, isFull, hc, hfree, eq_comm]

/-! ## Stages -/

/-- The stages an exploration of `a` goes through: which sets were taken, which of their tasks
are done, which are to do before the next set is taken, and what was found and laid by then. -/
inductive Stage (a : Automaton) (limit : StateLimit) (target : Automaton) :
    List (StateSet × StateId) → List Task → List Task → Exploration → Prop where
  | begun : Stage a limit target [] [] [] (begin a.start target)
  | take {taken : List (StateSet × StateId)} {done : List Task} {x : Exploration}
      {p : StateSet × StateId} {rest : List (StateSet × StateId)}
      (stage : Stage a limit target taken done [] x) (next : x.pending = p :: rest) :
      Stage a limit target (taken ++ [p]) done (tasksOf a [p]) { x with pending := rest }
  | follow {taken : List (StateSet × StateId)} {done todo : List Task} {x y : Exploration}
      {n : StateId} {g : LabelGroup} (stage : Stage a limit target taken done ((n, g) :: todo) x)
      (step : Exploration.follow limit n x g = .ok y) :
      Stage a limit target taken (done ++ [(n, g)]) todo y

/-- Sets are taken in the order in which they were found, and the others are pending. -/
theorem Stage.found_eq (h : Stage a limit target taken done todo x) :
    x.found = taken ++ x.pending := by
  induction h with
  | begun => rfl
  | take stage next ih => simp [ih, next]
  | follow stage step ih =>
    rcases follow_eq_ok.1 step with ⟨m, -, rfl⟩ | ⟨-, -, rfl⟩
    · simpa using ih
    · simp [ih]

/-- The tasks done and to do are those of the sets taken. -/
theorem Stage.tasks_eq (h : Stage a limit target taken done todo x) :
    tasksOf a taken = done ++ todo := by
  induction h with
  | begun => rfl
  | @take taken done x p rest stage next ih =>
    have happend : tasksOf a (taken ++ [p]) = tasksOf a taken ++ tasksOf a [p] := by
      simp [tasksOf]
    rw [happend, ih, List.append_nil]
  | follow stage step ih => simp [ih]

/-- Every task to do belongs to a set that was found. -/
theorem Stage.exists_of_mem_todo (h : Stage a limit target taken done todo x) {n : StateId}
    {g : LabelGroup} (ht : (n, g) ∈ todo) :
    ∃ S, (S, n) ∈ x.found ∧ g ∈ (a.labelGroups S).values := by
  have hmem : (n, g) ∈ tasksOf a taken := by simp [h.tasks_eq, ht]
  obtain ⟨⟨S, m⟩, hp, hg⟩ := List.mem_flatMap.1 hmem
  obtain ⟨g', hg', heq⟩ := List.mem_map.1 hg
  obtain ⟨rfl, rfl⟩ := Prod.mk.inj heq
  exact ⟨S, by simp [h.found_eq, hp], hg'⟩

/-! ## Explorations that end well -/

/-- When a set is taken, its label groups are to be followed. -/
theorem Stage.take_groups {p : StateSet × StateId} {rest : List (StateSet × StateId)}
    (h : Stage a limit target taken done [] x) (next : x.pending = p :: rest) :
    Stage a limit target (taken ++ [p]) done ((a.labelGroups p.1).values.map fun g => (p.2, g))
      { x with pending := rest } := by
  have htake := h.take next
  rw [tasksOf, List.flatMap_singleton] at htake
  exact htake

/-- All tasks that are to do are done when each label can be followed. -/
theorem Stage.of_foldlM {gs : List LabelGroup} {n : StateId}
    (h : Stage a limit target taken done (gs.map fun g => (n, g)) x)
    (hy : gs.foldlM (Exploration.follow limit n) x = .ok y) :
    Stage a limit target taken (done ++ gs.map fun g => (n, g)) [] y := by
  induction gs generalizing done x with
  | nil =>
    obtain rfl : x = y := by simpa [pure, Except.pure] using hy
    rw [List.map_nil, List.append_nil]
    exact h
  | cons g gs ih =>
    rw [List.foldlM_cons, bind_eq_ok] at hy
    obtain ⟨z, hstep, hrest⟩ := hy
    simpa using ih (Stage.follow h hstep) hrest

/-- To expand a set of states that exist is to follow its label groups. -/
theorem expand_of_hasState {S : StateSet} {n : StateId} (hS : ∀ s ∈ S, a.hasState s = true) :
    expand a limit x S n = (a.labelGroups S).values.foldlM (follow limit n) x := by
  have hnone : S.toList.find? (fun s => !a.hasState s) = none := by
    rw [List.find?_eq_none]
    intro s hs
    simp [hS s hs]
  rw [expand, hnone]

/-- A set can only be expanded if the automaton has all its members. -/
theorem expand_eq_ok {S : StateSet} {n : StateId} :
    expand a limit x S n = .ok y ↔
      (∀ s ∈ S, a.hasState s = true) ∧
        (a.labelGroups S).values.foldlM (follow limit n) x = .ok y := by
  unfold expand
  cases hs : S.toList.find? fun s => !a.hasState s with
  | some s =>
    have hmem := List.mem_of_find?_eq_some hs
    have hmissing := List.find?_some hs
    simp only [reduceCtorEq, false_iff, not_and]
    intro hall
    simp [hall s hmem] at hmissing
  | none =>
    have hall : ∀ s ∈ S, a.hasState s = true := by
      simpa [OrderedSet.mem_def] using hs
    exact ⟨fun h => ⟨hall, h⟩, fun h => h.2⟩

/-- With nothing pending an exploration is at its end. -/
theorem explore_of_nil {rounds : Nat} (h : x.pending = []) :
    explore a limit (rounds + 1) x = .ok x := by
  rw [explore, h]

/-- A round expands the first pending set, and the rounds left go on from there. -/
theorem explore_of_cons {rounds : Nat} {p : StateSet × StateId}
    {rest : List (StateSet × StateId)} (h : x.pending = p :: rest) :
    explore a limit (rounds + 1) x =
      expand a limit { x with pending := rest } p.1 p.2 >>= explore a limit rounds := by
  rw [explore, h]

/-- Rounds beyond those after which nothing is pending change nothing. -/
theorem explore_of_le {m k : Nat} (hle : m ≤ k)
    (ends : ∀ y, explore a limit m x = .ok y → y.pending = []) :
    explore a limit k x = explore a limit m x := by
  induction m generalizing k x with
  | zero =>
    have hnil : x.pending = [] := ends x rfl
    cases k with
    | zero => rfl
    | succ k => exact explore_of_nil hnil
  | succ m ih =>
    cases k with
    | zero => omega
    | succ k =>
      cases hp : x.pending with
      | nil => rw [explore_of_nil hp, explore_of_nil hp]
      | cons p rest =>
        rw [explore_of_cons hp] at ends
        rw [explore_of_cons hp, explore_of_cons hp]
        cases hz : expand a limit { x with pending := rest } p.1 p.2 with
        | error halt => rfl
        | ok z =>
          apply ih (Nat.le_of_succ_le_succ hle)
          intro y hy
          exact ends y (bind_eq_ok.2 ⟨z, hz, hy⟩)

/-! ## Rounds -/

/-- Rounds that lead from one exploration to another one, with the sets that they take. -/
inductive Rounds (a : Automaton) (limit : StateLimit) :
    Exploration → List (StateSet × StateId) → Exploration → Prop where
  | none (x : Exploration) : Rounds a limit x [] x
  | round {x y z : Exploration} {p : StateSet × StateId} {rest ps : List (StateSet × StateId)}
      (next : x.pending = p :: rest)
      (step : expand a limit { x with pending := rest } p.1 p.2 = .ok y)
      (more : Rounds a limit y ps z) : Rounds a limit x (p :: ps) z

/-- Any rounds are the beginning of those after which nothing is pending. -/
theorem Rounds.isPrefixOf (h : Rounds a limit x ps y) (hz : Rounds a limit x qs z)
    (ended : z.pending = []) : ps <+: qs := by
  induction h generalizing qs with
  | none x => exact List.nil_prefix
  | round next step more ih =>
    cases hz with
    | none =>
      rw [next] at ended
      cases ended
    | round next' step' more' =>
      obtain ⟨rfl, rfl⟩ := List.cons.inj (next.symm.trans next')
      obtain rfl := Except.ok.inj (step.symm.trans step')
      exact List.cons_prefix_cons.2 ⟨rfl, ih more'⟩

/-- Rounds lead from stage to stage. -/
theorem Rounds.stage (h : Rounds a limit x ps y) (hx : Stage a limit target taken done [] x) :
    ∃ done', Stage a limit target (taken ++ ps) done' [] y := by
  induction h generalizing taken done with
  | none x =>
    rw [List.append_nil]
    exact ⟨done, hx⟩
  | @round x y z p rest ps next step more ih =>
    obtain ⟨done', hz⟩ := ih ((hx.take_groups next).of_foldlM (expand_eq_ok.1 step).2)
    rw [List.append_assoc] at hz
    exact ⟨done', hz⟩

/-- An exploration that ends well has gone through all rounds it may take, or nothing is pending. -/
theorem exists_rounds_of_explore {rounds : Nat} (h : explore a limit rounds x = .ok y) :
    ∃ ps, Rounds a limit x ps y ∧ (y.pending = [] ∨ ps.length = rounds) := by
  induction rounds generalizing x with
  | zero =>
    obtain rfl : x = y := by simpa [explore] using h
    exact ⟨[], .none x, .inr rfl⟩
  | succ rounds ih =>
    cases hp : x.pending with
    | nil =>
      rw [explore_of_nil hp] at h
      obtain rfl := Except.ok.inj h
      exact ⟨[], .none x, .inl hp⟩
    | cons p rest =>
      rw [explore_of_cons hp, bind_eq_ok] at h
      obtain ⟨z, hz, hrest⟩ := h
      obtain ⟨ps, hps, hcount⟩ := ih hrest
      exact ⟨p :: ps, .round hp hz hps, hcount.imp_right (congrArg Nat.succ)⟩

/-- An exploration that ends well ends at a stage with nothing to do; then nothing is pending, or
each round has taken a set. -/
theorem explore_stage {rounds : Nat} (h : Stage a limit target taken done [] x)
    (hy : explore a limit rounds x = .ok y) :
    ∃ taken' done', Stage a limit target taken' done' [] y ∧
      (y.pending = [] ∨ taken'.length = taken.length + rounds) := by
  obtain ⟨ps, hps, hcount⟩ := exists_rounds_of_explore hy
  obtain ⟨done', hstage⟩ := hps.stage h
  refine ⟨taken ++ ps, done', hstage, hcount.imp_right fun hlength => ?_⟩
  rw [List.length_append, hlength]

end Exploration

end TouchAutomata
