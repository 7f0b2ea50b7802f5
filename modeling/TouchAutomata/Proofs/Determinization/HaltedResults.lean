import TouchAutomata.Proofs.Determinization.HaltedExploration
import TouchAutomata.Proofs.Determinization.RepeatedDeterminization

/-!
# What a halted exploration leaves behind

Which sets an exploration has found is settled by the tasks it has done (`Stage.found_eq_foundBy`),
and it takes the sets in the order in which it finds them. So each stage has found the first sets
and done the first tasks of the exploration that finishes (`Stage.begins`), whatever the limits are,
and has laid the first of its edges (`Stage.laid_first`). An exploration that halts has laid those
up to the first edge that leads to a state beyond the limit (`determinizeInto_halted`).
-/

set_option autoImplicit false

namespace TouchAutomata

namespace Exploration

variable {a target target' : Automaton} {limit limit' : StateLimit} {x y : Exploration}
variable {taken : List (StateSet × StateId)} {done todo : List Task} {halt : Halt}
variable {S : StateSet} {n : StateId} {g : LabelGroup} {es : List Edge} {c : Nat}

/-! ## What tasks find -/

/-- What is found after a task, given what was found before it. -/
def meet (found : List (StateSet × StateId)) (t : Task) : List (StateSet × StateId) :=
  match found.lookup t.2.targets with
  | some _ => found
  | none => found ++ [(t.2.targets, nth found.length)]

/-- What is found when tasks are done one after the other, the set of the start state first. -/
def foundBy (start : StateId) (ts : List Task) : List (StateSet × StateId) :=
  ts.foldl meet [({start}, Automaton.defaultStart)]

/-- What was found before some tasks stays at the front. -/
theorem prefix_foldl_meet (ts : List Task) (found : List (StateSet × StateId)) :
    found <+: ts.foldl meet found := by
  induction ts generalizing found with
  | nil => exact List.prefix_refl _
  | cons t ts ih =>
    rw [List.foldl_cons]
    refine List.IsPrefix.trans ?_ (ih _)
    unfold meet
    split
    · exact List.prefix_refl _
    · exact List.prefix_append _ _

/-- The first tasks find the first sets. -/
theorem foundBy_prefix {ts us : List Task} (start : StateId) (h : ts <+: us) :
    foundBy start ts <+: foundBy start us := by
  obtain ⟨rest, rfl⟩ := h
  unfold foundBy
  rw [List.foldl_append]
  apply prefix_foldl_meet

/-- The tasks done settle what was found. -/
theorem Stage.found_eq_foundBy (h : Stage a limit target taken done todo x) :
    x.found = foundBy a.start done := by
  induction h with
  | begun => rfl
  | take stage next ih => exact ih
  | @follow taken done todo x y n g stage step ih =>
    have hlast : foundBy a.start (done ++ [(n, g)]) = meet x.found (n, g) := by
      rw [foundBy, List.foldl_append, ← foundBy, ← ih]
      rfl
    rw [hlast]
    rcases follow_eq_ok.1 step with ⟨m, hm, rfl⟩ | ⟨hnew, -, rfl⟩
    · have hlookup : x.found.lookup g.targets = some m := hm
      rw [meet, hlookup]
      rfl
    · have hlookup : x.found.lookup g.targets = none := hnew
      rw [meet, hlookup, found_lay, found_discover, stage.numbered.fresh]

/-! ## Stages of one exploration -/

/-- A finished exploration begins with what was found and done at any stage. -/
theorem Stage.begins (h : Stage a limit target taken done todo x)
    (hy : Finished a limit' target' y) :
    x.found <+: y.found ∧ done ++ todo <+: tasksOf a y.found := by
  have hfoundBy := Stage.found_eq_foundBy hy
  induction h with
  | begun =>
    refine ⟨?_, List.nil_prefix⟩
    rw [hfoundBy]
    exact foundBy_prefix a.start List.nil_prefix
  | @take taken done x p rest stage next ih =>
    refine ⟨ih.1, ?_⟩
    have htaken : taken ++ [p] <+: y.found := by
      refine List.IsPrefix.trans ⟨rest, ?_⟩ ih.1
      rw [stage.found_eq, next, List.append_assoc, List.singleton_append]
    rw [← (stage.take next).tasks_eq]
    exact htaken.flatMap _
  | @follow taken done todo x z n g stage step ih =>
    have htasks : done ++ [(n, g)] ++ todo <+: tasksOf a y.found := by
      rw [List.append_assoc]
      exact ih.2
    refine ⟨?_, htasks⟩
    rw [(Stage.follow stage step).found_eq_foundBy, hfoundBy]
    exact foundBy_prefix a.start ((List.prefix_append ..).trans htasks)

/-- The edges laid at a stage are the first edges of the finished exploration; its next edges are
those for the tasks to do. -/
theorem Stage.laid_first (h : Stage a limit target taken done todo x)
    (hy : Finished a limit' target' y) (hlays : List.Forall₂ y.Lays (tasksOf a y.found) es) :
    ∃ kept rest more, es = kept ++ rest ∧ x.result = target.addAll kept ∧
      List.Forall₂ x.Lays done kept ∧ List.Forall₂ y.Lays (todo ++ more) rest := by
  obtain ⟨hfound, more, htasks⟩ := h.begins hy
  obtain ⟨kept, hresult, hkept⟩ := h.laid
  rw [← htasks, List.append_assoc] at hlays
  have htake := List.forall₂_take done.length hlays
  have hdrop := List.forall₂_drop done.length hlays
  rw [List.take_left] at htake
  rw [List.drop_left] at hdrop
  have hkept' : List.Forall₂ y.Lays done kept :=
    hkept.imp fun t e he => ⟨he.1, he.2.1, hfound.mem he.2.2⟩
  -- one edge is to be laid for each task, so both lists are the same
  obtain rfl : kept = es.take done.length :=
    List.right_unique_forall₂' (Stage.numbered hy).lays_unique hkept' htake
  exact ⟨_, _, more, (List.take_append_drop _ _).symm, hresult, hkept, hdrop⟩

/-! ## Where an exploration halts -/

/-- No number exceeds the count of the sets found. -/
theorem Numbered.toNat_le (h : x.Numbered) (few : x.found.length < UInt32.size)
    (hS : (S, n) ∈ x.found) : n.toNat ≤ x.found.length := by
  obtain ⟨i, hi, rfl⟩ := h.exists_nth hS
  rw [toNat_nth (by omega)]
  omega

/-- What is found later has a larger number. -/
theorem Numbered.lt_toNat (hx : x.Numbered) (hy : y.Numbered) (few : y.found.length < UInt32.size)
    (begins : x.found <+: y.found) (new : x.number? S = none) (hS : (S, n) ∈ y.found) :
    x.found.length < n.toNat := by
  obtain ⟨i, hi⟩ := List.mem_iff_getElem?.1 hS
  obtain ⟨hlt, -⟩ := List.getElem?_eq_some_iff.1 hi
  rw [hy.number_eq hi, toNat_nth (by omega)]
  by_contra hle
  -- among the first sets it would have had a number before
  have hbefore : x.found[i]? = y.found[i]? := by
    obtain ⟨rest, hrest⟩ := begins
    rw [← hrest, List.getElem?_append_left (by omega)]
  rw [← hbefore] at hi
  have hsome := hx.number?_eq_some.2 (List.mem_of_getElem? hi)
  rw [new] at hsome
  cases hsome

/-- A list is taken up to its first entry that fails. -/
theorem takeWhile_append_cons {α : Type} {p : α → Bool} {l rest : List α} {b : α}
    (passes : ∀ a ∈ l, p a = true) (fails : p b = false) : (l ++ b :: rest).takeWhile p = l := by
  have hfails : ¬ p b = true := by simp [fails]
  rw [List.takeWhile_append_of_pos passes, List.takeWhile_cons_of_neg hfails, List.append_nil]

/-- An exploration that halts at the limit has laid the edges of the finished one that come before
the first to a number beyond the limit, and there is such an edge. -/
theorem AtLimit.result_eq (h : AtLimit a (some c) target halt) (hy : Finished a limit' target' y)
    (few : y.found.length < UInt32.size)
    (hlays : List.Forall₂ y.Lays (tasksOf a y.found) es) :
    (∃ e ∈ es, max c 1 < e.target.toNat) ∧
      halt.reached.result = target.addAll (es.takeWhile fun e => e.target.toNat ≤ max c 1) := by
  cases h with
  | @full taken done todo x n g c' stage new bounded reached =>
    obtain rfl := Option.some.inj bounded
    obtain ⟨hfound, -⟩ := stage.begins hy
    have hshort := hfound.length_le
    have hcount : x.found.length = max c 1 := by
      have hle := stage.length_le
      have hpos := List.length_pos_of_mem stage.mem_start
      omega
    obtain ⟨kept, rest, more, rfl, hresult, hkept, hrest⟩ := stage.laid_first hy hlays
    obtain ⟨e, rest, he, -, rfl⟩ := List.forall₂_cons_left_iff.1 hrest
    have hwithin : ∀ d ∈ kept, decide (d.target.toNat ≤ max c 1) = true := by
      intro d hd
      obtain ⟨t, -, -, -, htarget⟩ :=
        (mem_iff_of_forall₂ stage.numbered.lays_unique hkept d).1 hd
      rw [decide_eq_true_eq, ← hcount]
      exact stage.numbered.toNat_le (by omega) htarget
    have hbeyond : max c 1 < e.target.toNat := by
      rw [← hcount]
      exact stage.numbered.lt_toNat (Stage.numbered hy) few hfound new he.2.2
    refine ⟨⟨e, by simp, hbeyond⟩, ?_⟩
    rw [takeWhile_append_cons hwithin (decide_eq_false (by omega))]
    exact hresult

end Exploration

namespace Automaton

variable {a target : Automaton} {limit : StateLimit} {es : List Edge} {c : Nat}

/-- Edges in the order of sources and labels are all kept by an automaton without edges. -/
theorem perm_edges_addAll_of_earlier (no_edges : a.edges = [])
    (h : es.Pairwise Edge.Earlier) : (a.addAll es).edges.Perm es := by
  have hlone : (a.edges ++ es).Pairwise fun d e => ¬ d.Twin e := by
    rw [no_edges, List.nil_append]
    exact h.imp Edge.Earlier.not_twin
  have hperm := perm_edges_addAll hlone
  rw [no_edges, List.nil_append] at hperm
  exact hperm

/-- A determinization that exceeds its limit leaves what the exploration had laid when it halted. -/
theorem exists_atLimit (htarget : target.isEmpty = true)
    (h : (a.determinizeInto target limit).1 = .error (.stateLimitExceeded c)) :
    a.hasState a.start = true ∧ ∃ halt, Exploration.AtLimit a limit target halt ∧
      (a.determinizeInto target limit).2 = halt.reached.result := by
  rw [determinizeInto_of_isEmpty htarget] at h ⊢
  have ha : ¬ a.isEmpty = true := by
    intro ha
    rw [if_pos ha] at h
    cases h
  rw [if_neg ha] at h ⊢
  have hstart : a.hasState a.start = true := by
    by_contra hmissing
    rw [Bool.not_eq_true] at hmissing
    rw [Exploration.ofAutomaton_of_missing hmissing] at h
    cases h
  refine ⟨hstart, ?_⟩
  cases hx : Exploration.ofAutomaton a limit target with
  | error halt => exact ⟨halt, Exploration.ofAutomaton_atLimit hstart hx, rfl⟩
  | ok x =>
    rw [hx] at h
    cases h

/-- List the edges of the deterministic automaton in the order of sources and labels. A
determinization that exceeds its limit has laid those before the first that leads to a state beyond
the limit, where the first state always counts as within it. The target keeps its start state, and
it stays without edges exactly when the very first edge leads beyond the limit. -/
theorem determinizeInto_halted (htarget : target.isEmpty = true)
    (few : a.attainedCount < UInt32.size - 1)
    (h : (a.determinizeInto target (some c)).1 = .error (.stateLimitExceeded c)) :
    ∃ dfa report, a.determinize none = .ok (dfa, report) ∧
      ∃ es : List Edge, es.Perm dfa.edges ∧ es.Pairwise Edge.Earlier ∧
        (∃ e ∈ es, max c 1 < e.target.toNat) ∧
        (a.determinizeInto target (some c)).2.edges.Perm
          (es.takeWhile fun e => e.target.toNat ≤ max c 1) ∧
        (a.determinizeInto target (some c)).2.start = target.start ∧
        ((a.determinizeInto target (some c)).2.isEmpty = true ↔
          ∃ e, es.head? = some e ∧ max c 1 < e.target.toNat) := by
  obtain ⟨hstart, halt, hhalt, hleft⟩ := exists_atLimit htarget h
  obtain ⟨dfa, report, hdfa⟩ := determinize_unlimited hstart
  obtain ⟨y, hy, rfl, rfl⟩ := determinize_finished hdfa
  have few := hy.length_lt few
  obtain ⟨es, hresult, hlays⟩ := Exploration.Stage.laid hy
  have hordered := hy.pairwise_earlier few hlays
  have hall : y.finished.edges.Perm es := by
    rw [Exploration.edges_finished, hresult]
    exact perm_edges_addAll_of_earlier rfl hordered
  obtain ⟨hbeyond, hlaid⟩ := hhalt.result_eq hy few hlays
  have hkept : (a.determinizeInto target (some c)).2.edges.Perm
      (es.takeWhile fun e => e.target.toNat ≤ max c 1) := by
    rw [hleft, hlaid]
    apply perm_edges_addAll_of_earlier (List.isEmpty_iff.1 htarget)
    exact hordered.sublist (List.takeWhile_sublist _)
  refine ⟨_, _, hdfa, es, hall.symm, hordered, hbeyond, hkept, ?_, ?_⟩
  · rw [hleft, hlaid, start_addAll]
  · rw [isEmpty, List.isEmpty_iff, ← List.perm_nil, hkept.congr_left, List.perm_nil]
    cases es with
    | nil => simp at hbeyond
    | cons d es => simp [List.takeWhile_cons]

/-- With three states, lifting the finger after the first label has no state to lead to. -/
theorem determinizeInto_halted_forked :
    ((∅ : Automaton).withStart 7).isEmpty = true ∧ forked.attainedCount < UInt32.size - 1 ∧
    (forked.determinizeInto ((∅ : Automaton).withStart 7) (some 3)).1 =
      .error (.stateLimitExceeded 3) ∧
    (forked.determinizeInto ((∅ : Automaton).withStart 7) (some 3)).2.edges =
      [⟨1, 2, ⟨"D1", [], .ofList [1, 2, 3]⟩⟩, ⟨2, 3, ⟨"M1", [], ∅⟩⟩] ∧
    ∃ dfa report, forked.determinize none = .ok (dfa, report) ∧
      ∃ es : List Edge, es.Perm dfa.edges ∧ es.Pairwise Edge.Earlier ∧
        (∃ e ∈ es, max 3 1 < e.target.toNat) ∧
        (forked.determinizeInto ((∅ : Automaton).withStart 7) (some 3)).2.edges.Perm
          (es.takeWhile fun e => e.target.toNat ≤ max 3 1) ∧
        (forked.determinizeInto ((∅ : Automaton).withStart 7) (some 3)).2.start = 7 ∧
        ((forked.determinizeInto ((∅ : Automaton).withStart 7) (some 3)).2.isEmpty = true ↔
          ∃ e, es.head? = some e ∧ max 3 1 < e.target.toNat) := by
  have hhalts : (forked.determinizeInto ((∅ : Automaton).withStart 7) (some 3)).1 =
      .error (.stateLimitExceeded 3) := by decide +kernel
  exact ⟨rfl, few_forked, hhalts, by decide +kernel, determinizeInto_halted rfl few_forked hhalts⟩

end Automaton

end TouchAutomata
