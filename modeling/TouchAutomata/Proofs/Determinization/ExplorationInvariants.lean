import TouchAutomata.Proofs.Determinization.ExplorationStages
import TouchAutomata.Proofs.Determinization.LabelGroupContents
import Mathlib.Data.List.Forall2
import Mathlib.Data.List.Nodup

/-!
# What holds at every stage of an exploration

No set is found twice, the numbers are given in order (`Stage.numbered`), and only attained sets
are found (`Stage.attained`). The result is what the edges of the tasks done make of the target
automaton, added one after the other (`Stage.laid`).
-/

set_option autoImplicit false

namespace TouchAutomata.Exploration

variable {a target : Automaton} {limit : StateLimit} {x : Exploration}
variable {taken : List (StateSet × StateId)} {done todo : List Task}
variable {S T : StateSet} {m n : StateId} {i : Nat}

/-! ## Numbers -/

/-- The number of the set that is found after `i` others. -/
def nth (i : Nat) : StateId := UInt32.ofNat (i + 1)

/-- After a number comes the next one, and after the last the first. -/
theorem nth_succ (i : Nat) : nth i + 1 = nth (i + 1) := by
  simp [nth]

/-- Before the numbers are used up, they count from one. -/
theorem toNat_nth {i : Nat} (h : i + 1 < UInt32.size) : (nth i).toNat = i + 1 :=
  UInt32.toNat_ofNat_of_lt h

/-- No set stands twice among those found, and their numbers are in order. -/
structure Numbered (x : Exploration) : Prop where
  distinct : (x.found.map Prod.fst).Nodup
  numbers : x.found.map Prod.snd = (List.range x.found.length).map nth
  fresh : x.fresh = nth x.found.length

/-- The number that is looked up for a set is the one it was found with. -/
theorem Numbered.number?_eq_some (h : x.Numbered) :
    x.number? S = some n ↔ (S, n) ∈ x.found :=
  lookup_eq_some_iff_mem h.distinct

/-- A new set gets the next number. -/
theorem Numbered.discover (h : x.Numbered) (new : x.number? S = none) :
    (x.discover S).Numbered where
  distinct := by
    have hnew : S ∉ x.found.map Prod.fst := by
      rintro hS
      obtain ⟨p, hp, rfl⟩ := List.mem_map.1 hS
      have := List.lookup_eq_none_iff.1 new p hp
      simp at this
    simp only [found_discover, List.map_append, List.map_singleton]
    refine List.nodup_append.2 ⟨h.distinct, by simp, ?_⟩
    rintro T hT U hU rfl
    exact hnew (List.mem_singleton.1 hU ▸ hT)
  numbers := by
    simp [h.numbers, h.fresh, List.range_succ]
  fresh := by
    simp [h.fresh, nth_succ]

/-- No set is found twice, and the numbers are given in order. -/
theorem Stage.numbered (h : Stage a limit target taken done todo x) : x.Numbered := by
  induction h with
  | begun => exact Numbered.discover ⟨by simp, by simp, rfl⟩ rfl
  | take stage next ih => exact ⟨ih.distinct, ih.numbers, ih.fresh⟩
  | follow stage step ih =>
    rcases follow_eq_ok.1 step with ⟨m, -, rfl⟩ | ⟨new, -, rfl⟩
    · exact ⟨ih.distinct, ih.numbers, ih.fresh⟩
    · obtain ⟨hdistinct, hnumbers, hfresh⟩ := ih.discover new
      exact ⟨hdistinct, hnumbers, hfresh⟩

/-- A set has one number. -/
theorem Numbered.number_unique (h : x.Numbered) (hm : (S, m) ∈ x.found) (hn : (S, n) ∈ x.found) :
    m = n := by
  rw [← h.number?_eq_some] at hm hn
  exact Option.some.inj (hm.symm.trans hn)

/-- The number of a set tells how many were found before it. -/
theorem Numbered.number_eq (h : x.Numbered) (hS : x.found[i]? = some (S, n)) : n = nth i := by
  obtain ⟨hi, -⟩ := List.getElem?_eq_some_iff.1 hS
  have hnumber : (x.found.map Prod.snd)[i]? = some n := by
    rw [List.getElem?_map, hS]
    rfl
  rw [h.numbers, List.getElem?_map, List.getElem?_range hi] at hnumber
  exact (Option.some.inj hnumber).symm

/-- Every number that was given belongs to a place among the sets found. -/
theorem Numbered.exists_nth (h : x.Numbered) (hS : (S, n) ∈ x.found) :
    ∃ i < x.found.length, n = nth i := by
  obtain ⟨i, hi⟩ := List.mem_iff_getElem?.1 hS
  exact ⟨i, (List.getElem?_eq_some_iff.1 hi).1, h.number_eq hi⟩

/-- Until the numbers are used up, each stands for one set. -/
theorem Numbered.set_unique (h : x.Numbered) (few : x.found.length ≤ UInt32.size)
    (hS : (S, n) ∈ x.found) (hT : (T, n) ∈ x.found) : S = T := by
  have hnodup : (x.found.map Prod.snd).Nodup := by
    rw [h.numbers]
    refine List.Nodup.map_on ?_ List.nodup_range
    intro i hi j hj hij
    rw [List.mem_range] at hi hj
    have hij' := congrArg UInt32.toNat hij
    simp only [nth, UInt32.toNat_ofNat', UInt32.size] at few hij'
    omega
  have hpair := List.inj_on_of_nodup_map hnodup hS hT rfl
  exact congrArg Prod.fst hpair

/-- Under a number stands the set that got it last. -/
theorem Stage.get?_stateSets_eq (h : Stage a limit target taken done todo x) :
    x.stateSets.get? n = (x.found.reverse.find? fun p => p.2 = n).map Prod.fst := by
  induction h with
  | begun =>
    simp only [begin, stateSets_discover, found_discover, OrderedMap.insert,
      OrderedMap.get?_update]
    by_cases hn : n = Automaton.defaultStart
    · simp [hn]
    · simp [hn, Ne.symm hn, OrderedMap.get?]
  | take stage next ih => exact ih
  | @follow taken done todo x y k g stage step ih =>
    rcases follow_eq_ok.1 step with ⟨m, -, rfl⟩ | ⟨-, -, rfl⟩
    · exact ih
    · simp only [stateSets_lay, stateSets_discover, found_lay, found_discover, OrderedMap.insert,
        OrderedMap.get?_update, List.reverse_append, List.reverse_singleton, List.singleton_append,
        List.find?_cons]
      by_cases hn : n = x.fresh
      · simp [hn]
      · simp [hn, Ne.symm hn, ih]

/-- A set that stands under a number was found. -/
theorem Stage.mem_of_get?_stateSets (h : Stage a limit target taken done todo x)
    (hS : x.stateSets.get? n = some S) : (S, n) ∈ x.found := by
  rw [h.get?_stateSets_eq, Option.map_eq_some_iff] at hS
  obtain ⟨⟨T, m⟩, hfind, rfl⟩ := hS
  obtain rfl : m = n := by simpa using List.find?_some hfind
  exact List.mem_reverse.1 (List.mem_of_find?_eq_some hfind)

/-- Until the numbers are used up, the report holds every set found under its number. -/
theorem Stage.get?_stateSets (h : Stage a limit target taken done todo x)
    (few : x.found.length < UInt32.size) :
    x.stateSets.get? n = some S ↔ (S, n) ∈ x.found := by
  constructor
  · exact h.mem_of_get?_stateSets
  · intro hS
    cases hT : x.stateSets.get? n with
    | none =>
      rw [h.get?_stateSets_eq, Option.map_eq_none_iff, List.find?_eq_none] at hT
      exact absurd (decide_eq_true rfl) (hT _ (List.mem_reverse.2 hS))
    | some T => rw [h.numbered.set_unique few.le hS (h.mem_of_get?_stateSets hT)]

/-- Under a limit no more sets are found than it allows, the set of the start state apart. -/
theorem Stage.length_le {c : Nat} (h : Stage a (some c) target taken done todo x) :
    x.found.length ≤ max 1 c := by
  induction h with
  | begun => simp [begin]
  | take stage next ih => exact ih
  | follow stage step ih =>
    rcases follow_eq_ok.1 step with ⟨m, -, rfl⟩ | ⟨-, free, rfl⟩
    · exact ih
    · have := free c rfl
      simp only [found_lay, found_discover, List.length_append, List.length_singleton]
      omega

/-! ## Sets -/

/-- The set of the start state was found first. -/
theorem Stage.found_zero (h : Stage a limit target taken done todo x) :
    x.found[0]? = some ({a.start}, Automaton.defaultStart) := by
  induction h with
  | begun => rfl
  | take stage next ih => exact ih
  | follow stage step ih =>
    rcases follow_eq_ok.1 step with ⟨m, -, rfl⟩ | ⟨-, -, rfl⟩
    · exact ih
    · obtain ⟨hpos, -⟩ := List.getElem?_eq_some_iff.1 ih
      rw [found_lay, found_discover, List.getElem?_append_left hpos]
      exact ih

/-- The set of the start state has the first number. -/
theorem Stage.mem_start (h : Stage a limit target taken done todo x) :
    ({a.start}, Automaton.defaultStart) ∈ x.found :=
  List.mem_of_getElem? h.found_zero

/-- Words lead to every set that was found. -/
theorem Stage.attained (h : Stage a limit target taken done todo x) :
    ∀ p ∈ x.found, a.Attains p.1 := by
  induction h with
  | begun => simpa [begin] using Automaton.attains_start
  | take stage next ih => exact ih
  | follow stage step ih =>
    rcases follow_eq_ok.1 step with ⟨m, -, rfl⟩ | ⟨-, -, rfl⟩
    · exact ih
    · obtain ⟨S, hS, hg⟩ := stage.exists_of_mem_todo (List.mem_cons_self ..)
      intro p hp
      rw [found_lay, found_discover, List.mem_append, List.mem_singleton] at hp
      rcases hp with hp | rfl
      · exact ih p hp
      · exact (ih _ hS).targets hg

/-! ## Edges -/

/-- An edge is the one to lay for a task: from the number of the task, to the number under which
the targets of its group were found, with the touch of the group. -/
def Lays (x : Exploration) (t : Task) (e : Edge) : Prop :=
  e.source = t.1 ∧ e.touch = t.2.touch ∧ (t.2.targets, e.target) ∈ x.found

/-- One edge is to be laid for a task. -/
theorem Numbered.lays_unique (h : x.Numbered) : Relator.RightUnique x.Lays := by
  rintro t d e ⟨hsource, htouch, htarget⟩ ⟨hsource', htouch', htarget'⟩
  have htargets := h.number_unique htarget htarget'
  cases d
  cases e
  simp_all

/-- The result is the target automaton and one edge for each task done, added in order. -/
theorem Stage.laid (h : Stage a limit target taken done todo x) :
    ∃ es, x.result = target.addAll es ∧ List.Forall₂ x.Lays done es := by
  induction h with
  | begun => exact ⟨[], rfl, .nil⟩
  | take stage next ih => exact ih
  | @follow taken done todo x y n g stage step ih =>
    obtain ⟨es, hresult, hlays⟩ := ih
    have hadd (e : Edge) : (target.addAll es).add e = target.addAll (es ++ [e]) := by
      simp [Automaton.addAll]
    rcases follow_eq_ok.1 step with ⟨m, hm, rfl⟩ | ⟨new, -, rfl⟩
    · refine ⟨es ++ [⟨n, m, g.touch⟩], by rw [result_lay, hresult, hadd], ?_⟩
      have hlast : x.Lays (n, g) ⟨n, m, g.touch⟩ :=
        ⟨rfl, rfl, stage.numbered.number?_eq_some.1 hm⟩
      exact List.rel_append hlays (.cons hlast .nil)
    · set y := (x.discover g.targets).lay n x.fresh g.touch
      have hkeep : List.Forall₂ y.Lays done es :=
        hlays.imp fun t e he => ⟨he.1, he.2.1, List.mem_append_left _ he.2.2⟩
      have hlast : y.Lays (n, g) ⟨n, x.fresh, g.touch⟩ :=
        ⟨rfl, rfl, List.mem_append_right _ (List.mem_singleton_self _)⟩
      refine ⟨es ++ [⟨n, x.fresh, g.touch⟩], ?_, List.rel_append hkeep (.cons hlast .nil)⟩
      rw [result_lay, result_discover, hresult, hadd]

end TouchAutomata.Exploration
