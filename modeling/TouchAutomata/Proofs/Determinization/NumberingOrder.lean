import TouchAutomata.Proofs.Automaton.LeastWords
import TouchAutomata.Proofs.Determinization.LeavingLabels
import TouchAutomata.Proofs.Determinization.WordSimulation

/-!
# The order of the numbers

An exploration does its tasks in the order of their sources and labels (`pairwise_tasksOf`), and
each set gets its number at the first task that leads to it (`Stage.opened`). So the states of
the deterministic automaton are opened in their order (`Finished.sequential`), and they are in the
order of their least words (`determinize_numbering`).
-/

set_option autoImplicit false

namespace TouchAutomata

namespace Exploration

variable {a target : Automaton} {limit : StateLimit} {x : Exploration}
variable {taken : List (StateSet × StateId)} {done todo : List Task}
variable {S : StateSet} {n : StateId}

/-! ## Numbers in order -/

/-- Before the numbers are used up, later ones are larger. -/
theorem nth_lt_nth {i j : Nat} (hij : i < j) (few : j + 1 < UInt32.size) : nth i < nth j := by
  rw [UInt32.lt_iff_toNat_lt, toNat_nth (by omega), toNat_nth few]
  omega

/-- The sets were found in the order of their numbers. -/
theorem Numbered.pairwise_numbers (h : x.Numbered) (few : x.found.length < UInt32.size) :
    (x.found.map Prod.snd).Pairwise (· < ·) := by
  rw [h.numbers, List.pairwise_map]
  refine List.pairwise_lt_range.imp_of_mem ?_
  intro i j _ hj hij
  rw [List.mem_range] at hj
  exact nth_lt_nth hij (by omega)

/-- Until the numbers are used up, the next one is larger than those given before. -/
theorem Numbered.lt_fresh (h : x.Numbered) (few : x.found.length + 1 < UInt32.size)
    (hS : (S, n) ∈ x.found) : n < x.fresh := by
  obtain ⟨i, hi, rfl⟩ := h.exists_nth hS
  rw [h.fresh]
  exact nth_lt_nth hi few

/-- The set of the start state has the smallest number. -/
theorem Numbered.start_le (h : x.Numbered) (few : x.found.length < UInt32.size)
    (hS : (S, n) ∈ x.found) : Automaton.defaultStart ≤ n := by
  obtain ⟨i, hi, rfl⟩ := h.exists_nth hS
  rw [UInt32.le_iff_toNat_le, toNat_nth (by omega)]
  exact Nat.succ_le_succ (Nat.zero_le i)

/-! ## Tasks in order -/

/-- The source of `t` comes before that of `u`; tasks with one source are ordered by label. -/
def Task.Before (t u : Task) : Prop :=
  t.1 < u.1 ∨ t.1 = u.1 ∧ t.2.touch.label < u.2.touch.label

/-- The tasks of sets in the order of their numbers are in order themselves. -/
theorem pairwise_tasksOf {found : List (StateSet × StateId)}
    (h : (found.map Prod.snd).Pairwise (· < ·)) :
    (tasksOf a found).Pairwise Task.Before := by
  refine List.pairwise_flatMap.2 ⟨?_, (List.pairwise_map.1 h).imp ?_⟩
  · intro p _
    refine List.pairwise_map.2 (Automaton.pairwise_labelGroups.imp fun hlabel => ?_)
    exact .inr ⟨rfl, hlabel⟩
  · intro p q hpq t ht u hu
    obtain ⟨g, -, rfl⟩ := List.mem_map.1 ht
    obtain ⟨g', -, rfl⟩ := List.mem_map.1 hu
    exact .inl hpq

/-- A task that is done leads to a set that was found. -/
theorem Stage.exists_number_of_mem_done (h : Stage a limit target taken done todo x) {t : Task}
    (ht : t ∈ done) : ∃ m, (t.2.targets, m) ∈ x.found := by
  obtain ⟨es, -, hlays⟩ := h.laid
  obtain ⟨i, hi, rfl⟩ := List.getElem_of_mem ht
  exact ⟨_, (hlays.get hi (hlays.length_eq ▸ hi)).2.2⟩

/-- A set other than the first was found by a task whose source has a smaller number, and the
tasks done before lead to sets with smaller numbers. -/
def Opened (x : Exploration) (done : List Task) (S : StateSet) (n : StateId) : Prop :=
  ∃ pre t post, done = pre ++ t :: post ∧ t.2.targets = S ∧ t.1 < n ∧
    ∀ u ∈ pre, ∃ m, m < n ∧ (u.2.targets, m) ∈ x.found

/-- A task that is done later does not change how a set was found. -/
theorem Opened.append {y : Exploration} (h : x.Opened done S n) (t : Task)
    (keeps : ∀ p ∈ x.found, p ∈ y.found) : y.Opened (done ++ [t]) S n := by
  obtain ⟨pre, u, post, rfl, htargets, hlt, hpre⟩ := h
  refine ⟨pre, u, post ++ [t], by simp, htargets, hlt, fun v hv => ?_⟩
  obtain ⟨m, hm, hfound⟩ := hpre v hv
  exact ⟨m, hm, keeps _ hfound⟩

/-- At every stage each set but the first was found behind a set with a smaller number. -/
theorem Stage.opened (h : Stage a limit target taken done todo x)
    (few : x.found.length < UInt32.size) (hS : (S, n) ∈ x.found)
    (later : n ≠ Automaton.defaultStart) : x.Opened done S n := by
  induction h with
  | begun =>
    rw [begin, found_discover, List.nil_append, List.mem_singleton] at hS
    exact absurd (congrArg Prod.snd hS) later
  | take stage next ih => exact ih few hS
  | @follow taken done todo x y k g stage step ih =>
    rcases follow_eq_ok.1 step with ⟨m, -, rfl⟩ | ⟨-, -, rfl⟩
    · exact (ih few hS).append _ fun p hp => hp
    · simp only [found_lay, found_discover, List.length_append, List.length_singleton] at few
      simp only [found_lay, found_discover, List.mem_append, List.mem_singleton] at hS
      rcases hS with hS | hS
      · exact (ih (by omega) hS).append _ fun p hp => List.mem_append_left _ hp
      · obtain ⟨rfl, rfl⟩ := Prod.mk.inj hS
        -- the task done last finds the set, and all numbers given before are smaller
        obtain ⟨T, hT, -⟩ := stage.exists_of_mem_todo (List.mem_cons_self ..)
        refine ⟨done, (k, g), [], rfl, rfl, stage.numbered.lt_fresh few hT, fun u hu => ?_⟩
        obtain ⟨m, hm⟩ := stage.exists_number_of_mem_done hu
        exact ⟨m, stage.numbered.lt_fresh few hm, List.mem_append_left _ hm⟩

/-! ## States in order -/

/-- Each state of the result but the first is opened by an edge. -/
theorem Finished.opens (h : Finished a limit target x) (no_edges : target.edges = [])
    (few : x.found.length < UInt32.size) (hS : (S, n) ∈ x.found)
    (later : n ≠ Automaton.defaultStart) : ∃ e, x.finished.Opens e n := by
  have hnumbered := Stage.numbered h
  have hsorted := pairwise_tasksOf (a := a) (hnumbered.pairwise_numbers few)
  obtain ⟨pre, ⟨m, g⟩, post, htasks, rfl, hlt, hpre⟩ := Stage.opened h few hS later
  have hmem : (m, g) ∈ tasksOf a x.found := by simp [htasks]
  obtain ⟨T, hT, hg⟩ := mem_tasksOf.1 hmem
  refine ⟨⟨m, n, g.touch⟩, ?_, rfl, hlt, ?_⟩
  · exact (h.mem_edges no_edges few).2 ⟨T, g, hT, hg, hS, rfl⟩
  · rintro ⟨k, d, touch⟩ hd hle
    obtain ⟨U, g', hU, hg', htarget, rfl⟩ := (h.mem_edges no_edges few).1 hd
    have htask : (k, g') ∈ pre ++ (m, g) :: post := htasks ▸ mem_tasksOf.2 ⟨U, hU, hg'⟩
    rcases List.mem_append.1 htask with hbefore | hrest
    · obtain ⟨j, hj, hfound⟩ := hpre _ hbefore
      obtain rfl := hnumbered.number_unique htarget hfound
      exact absurd (UInt32.lt_of_le_of_lt hle hj) (UInt32.lt_irrefl _)
    · rcases List.mem_cons.1 hrest with heq | hafter
      · obtain ⟨rfl, rfl⟩ := Prod.mk.inj heq
        obtain rfl : d = n := hnumbered.number_unique htarget hS
        exact .inl rfl
      · rw [htasks] at hsorted
        have hrest := (List.pairwise_append.1 hsorted).2.1
        exact .inr ((List.pairwise_cons.1 hrest).1 _ hafter)

/-- The states of a result are numbered in the order in which edges open them. -/
theorem Finished.sequential (h : Finished a limit ∅ x) (few : x.found.length < UInt32.size) :
    x.finished.Sequential where
  start_le s hs := by
    obtain ⟨S, hS⟩ := h.exists_set rfl (Automaton.hasState_iff.2 hs)
    rw [h.start_finished]
    exact (Stage.numbered h).start_le few hS
  opened s hs later := by
    obtain ⟨S, hS⟩ := h.exists_set rfl (Automaton.hasState_iff.2 hs)
    rw [h.start_finished] at later
    exact h.opens rfl few hS later

end Exploration

namespace Automaton

variable {a dfa : Automaton} {limit : StateLimit} {report : DeterminizationReport}

/-- The states of the deterministic automaton are in the order of the least words that lead to
them from the first state. -/
theorem determinize_numbering (h : a.determinize limit = .ok (dfa, report))
    (few : a.attainedCount < UInt32.size - 1) :
    dfa.start = 1 ∧
    (∀ d ∈ dfa.states, ∃ w, dfa.LeastWord w d) ∧
    ∀ d ∈ dfa.states, ∀ e ∈ dfa.states, ∀ v w, dfa.LeastWord v d → dfa.LeastWord w e →
      (d < e ↔ WordBefore v w) := by
  obtain ⟨x, hx, rfl, rfl⟩ := determinize_finished h
  have hsequential := hx.sequential (hx.length_lt few)
  refine ⟨hx.start_finished, fun d hd => hsequential.exists_leastWord hd, ?_⟩
  intro d hd e he v w hv hw
  exact hsequential.lt_iff_wordBefore hd he hv hw

/-- What is read after the first label of both gestures leads to a new state at once. -/
theorem leastWord_forkedMerged {d : StateId} {l : String} (hd : d ≠ 1 ∧ d ≠ 2)
    (he : ∃ e ∈ forkedMerged.edges, e.source = 2 ∧ e.label = l ∧ e.target = d)
    (only : ∀ e ∈ forkedMerged.edges, e.source = 2 → e.target = d → e.label = l) :
    forkedMerged.LeastWord ["D1", l] d := by
  have hfirst : ∀ e ∈ forkedMerged.edges, e.source = forkedMerged.start →
      e.label = "D1" ∧ e.target = 2 := by decide +kernel
  constructor
  · obtain ⟨e, he, hsource, hlabel, htarget⟩ := he
    refine path_cons.2
      ⟨⟨1, 2, ⟨"D1", [], .ofList [1, 2, 3]⟩⟩, by decide +kernel, rfl, by decide, ?_⟩
    exact path_cons.2 ⟨e, he, hsource, hlabel, path_nil.2 htarget⟩
  · intro v hv
    match v with
    | [] => exact absurd (path_nil.1 hv).symm hd.1
    | [k] =>
      obtain ⟨e, he, hsource, -, hnil⟩ := path_cons.1 hv
      rw [(hfirst e he hsource).2] at hnil
      exact absurd (path_nil.1 hnil).symm hd.2
    | [k, m] =>
      obtain ⟨e, he, hsource, rfl, hrest⟩ := path_cons.1 hv
      obtain ⟨f, hf, hfsource, rfl, hnil⟩ := path_cons.1 hrest
      rw [(hfirst e he hsource).2] at hfsource
      left
      rw [(hfirst e he hsource).1, only f hf hfsource (path_nil.1 hnil)]
    | _ :: _ :: _ :: _ => exact .inr (.of_length_lt (by simp))

/-- Drawing out comes before lifting. -/
theorem determinize_numbering_forked :
    forked.determinize (some defaultStateLimit) = .ok (forkedMerged, forkedReport) ∧
    forked.attainedCount < UInt32.size - 1 ∧
    3 ∈ forkedMerged.states ∧ 4 ∈ forkedMerged.states ∧
    forkedMerged.LeastWord ["D1", "M1"] 3 ∧ forkedMerged.LeastWord ["D1", "U1"] 4 ∧
    ((3 : StateId) < 4 ↔ WordBefore ["D1", "M1"] ["D1", "U1"]) ∧
    WordBefore ["D1", "M1"] ["D1", "U1"] := by
  obtain ⟨-, -, horder⟩ := determinize_numbering determinize_forked few_forked
  have hmem : 3 ∈ forkedMerged.states ∧ 4 ∈ forkedMerged.states := by decide +kernel
  have hdrawn : forkedMerged.LeastWord ["D1", "M1"] 3 :=
    leastWord_forkedMerged (by decide) (by decide +kernel) (by decide +kernel)
  have hlifted : forkedMerged.LeastWord ["D1", "U1"] 4 :=
    leastWord_forkedMerged (by decide) (by decide +kernel) (by decide +kernel)
  have hiff := horder 3 hmem.1 4 hmem.2 _ _ hdrawn hlifted
  exact ⟨determinize_forked, few_forked, hmem.1, hmem.2, hdrawn, hlifted, hiff, hiff.1 (by decide)⟩

end Automaton

end TouchAutomata
