import TouchAutomata.Automaton.Path
import Mathlib.Data.List.Induction
import Mathlib.Data.List.Shortlex

/-!
# Least words

Words are compared by their lengths first, and words of one length label by label. The edges of an
automaton are ordered by their sources first and by their labels second. If each state is opened
by the first of the edges that lead to it or to a later state (`Opens`), the states have least
words, and these are in the order of the states (`Sequential.lt_iff_wordBefore`).
-/

set_option autoImplicit false

namespace TouchAutomata

/-- The words in the order of their lengths, and those of one length label by label. -/
abbrev WordBefore (v w : List String) : Prop := List.Shortlex (· < ·) v w

namespace WordBefore

variable {u v w : List String} {k l : String}

/-- No word comes before itself. -/
theorem irrefl : ¬ WordBefore w w := fun h => Std.Asymm.asymm _ _ h h

/-- The order of words is transitive. -/
theorem trans (huv : WordBefore u v) (hvw : WordBefore v w) : WordBefore u w := by
  rw [WordBefore, List.shortlex_def] at *
  rcases huv with huv | ⟨huv, hlex⟩
  · left
    omega
  · rcases hvw with hvw | ⟨hvw, hlex'⟩
    · left
      omega
    · right
      exact ⟨huv.trans hvw, List.lt_trans hlex hlex'⟩

/-- Of two words that differ in their last label only, that with the lesser label comes first. -/
theorem concat_of_label (h : k < l) : WordBefore (w ++ [k]) (w ++ [l]) := by
  apply List.Shortlex.append_left
  rw [List.shortlex_singleton_iff]
  exact h

/-- Words of one length that come one before the other do so whatever follows them. -/
theorem lex_append {v' w' : List String} (h : List.Lex (· < ·) v w)
    (hlength : v.length = w.length) : List.Lex (· < ·) (v ++ v') (w ++ w') := by
  induction h with
  | nil => simp at hlength
  | rel hab => exact .rel hab
  | cons _ ih => exact .cons (ih (by simpa using hlength))

/-- A word comes before another one also when a label is added to each. -/
theorem concat (h : WordBefore v w) : WordBefore (v ++ [k]) (w ++ [l]) := by
  rw [WordBefore, List.shortlex_def] at *
  rw [List.length_append, List.length_append, List.length_singleton, List.length_singleton]
  rcases h with h | ⟨hlength, hlex⟩
  · left
    omega
  · right
    exact ⟨by omega, lex_append hlex hlength⟩

end WordBefore

/-- The source of `d` comes before that of `e`; edges with one source are ordered by label. -/
def Edge.Earlier (d e : Edge) : Prop :=
  d.source < e.source ∨ d.source = e.source ∧ d.label < e.label

/-- Of two edges at most one is earlier than the other. -/
theorem Edge.Earlier.asymm {d e : Edge} (h : d.Earlier e) : ¬ e.Earlier d := by
  rintro (hs | ⟨hs, hl⟩)
  · rcases h with h | ⟨h, -⟩
    · exact UInt32.lt_asymm h hs
    · rw [h] at hs
      exact UInt32.lt_irrefl _ hs
  · rcases h with h | ⟨-, h⟩
    · rw [hs] at h
      exact UInt32.lt_irrefl _ h
    · exact Std.Asymm.asymm _ _ h hl

/-- An edge is not earlier than its twins. -/
theorem Edge.Earlier.not_twin {d e : Edge} (h : d.Earlier e) : ¬ d.Twin e := by
  rintro ⟨hsource, -, hlabel⟩
  unfold Edge.Earlier at h
  rw [hsource, hlabel] at h
  rcases h with h | ⟨-, h⟩
  · exact UInt32.lt_irrefl _ h
  · exact String.lt_irrefl _ h

namespace Automaton

variable {a : Automaton} {s t : StateId} {d e : Edge} {v w : List String}

/-- A word leads to a state, and all other words that do come after it. -/
def LeastWord (a : Automaton) (w : List String) (s : StateId) : Prop :=
  a.Reaches w s ∧ ∀ v, a.Reaches v s → v = w ∨ WordBefore w v

/-- A state has one least word at most. -/
theorem LeastWord.unique (hv : a.LeastWord v s) (hw : a.LeastWord w s) : v = w := by
  rcases hw.2 v hv.1 with h | hwv
  · exact h
  · rcases hv.2 w hw.1 with h | hvw
    · exact h.symm
    · exact absurd (hwv.trans hvw) WordBefore.irrefl

/-- An edge leads to a state from one before it, and comes earlier than all other edges that lead
to this state or to a later one. -/
structure Opens (a : Automaton) (e : Edge) (s : StateId) : Prop where
  mem : e ∈ a.edges
  target_eq : e.target = s
  source_lt : e.source < s
  first : ∀ d ∈ a.edges, s ≤ d.target → d = e ∨ e.Earlier d

/-- The start state is the first, and each other state is opened by an edge. -/
structure Sequential (a : Automaton) : Prop where
  start_le : ∀ s ∈ a.states, a.start ≤ s
  opened : ∀ s ∈ a.states, s ≠ a.start → ∃ e, a.Opens e s

/-- One edge at most opens a state. -/
theorem Opens.unique (hd : a.Opens d s) (he : a.Opens e s) : d = e := by
  have hds : s ≤ d.target := hd.target_eq ▸ UInt32.le_refl _
  have hes : s ≤ e.target := he.target_eq ▸ UInt32.le_refl _
  rcases he.first d hd.mem hds with h | hed
  · exact h
  · rcases hd.first e he.mem hes with h | hde
    · exact h.symm
    · exact absurd hde hed.asymm

/-- What is opened is a state of the automaton. -/
theorem Opens.mem_states (h : a.Opens e s) : s ∈ a.states :=
  h.target_eq ▸ hasState_iff.1 (hasState_target h.mem)

/-- A state is opened from a state of the automaton. -/
theorem Opens.source_mem_states (h : a.Opens e s) : e.source ∈ a.states :=
  hasState_iff.1 (hasState_source h.mem)

/-- The edges that open states spell words. -/
inductive Spelled (a : Automaton) : List String → StateId → Prop where
  | nil : Spelled a [] a.start
  | concat {w : List String} {e : Edge} {s : StateId} (word : Spelled a w e.source)
      (opens : a.Opens e s) : Spelled a (w ++ [e.label]) s

/-- A word that is spelled leads to its state. -/
theorem Spelled.reaches (h : a.Spelled w s) : a.Reaches w s := by
  induction h with
  | nil => exact .nil _
  | @concat w e s _ opens ih =>
    have hlast : a.Path e.source [e.label] s :=
      path_cons.2 ⟨e, opens.mem, rfl, rfl, path_nil.2 opens.target_eq⟩
    exact path_append.2 ⟨_, ih, hlast⟩

namespace Sequential

/-- No edge opens the start state, since there is no state before it. -/
theorem not_opens_start (h : a.Sequential) : ¬ a.Opens e a.start := by
  intro hopens
  have hle := h.start_le _ hopens.source_mem_states
  exact UInt32.lt_irrefl _ (UInt32.lt_of_le_of_lt hle hopens.source_lt)

/-- A word is spelled for each state: that of the state it is opened from, and one label more. -/
theorem exists_spelled (h : a.Sequential) (hs : s ∈ a.states) : ∃ w, a.Spelled w s := by
  induction hn : s.toNat using Nat.strongRecOn generalizing s with
  | ind n ih =>
    by_cases hstart : s = a.start
    · exact ⟨[], hstart ▸ .nil⟩
    · obtain ⟨e, he⟩ := h.opened s hs hstart
      have hlt : e.source.toNat < n := hn ▸ UInt32.lt_iff_toNat_lt.1 he.source_lt
      obtain ⟨w, hw⟩ := ih _ hlt he.source_mem_states rfl
      exact ⟨w ++ [e.label], .concat hw he⟩

/-- Only one word is spelled for a state. -/
theorem spelled_unique (h : a.Sequential) (hv : a.Spelled v s) (hw : a.Spelled w s) : v = w := by
  induction hv generalizing w with
  | nil =>
    cases hw with
    | nil => rfl
    | concat _ opens => exact absurd opens h.not_opens_start
  | concat _ opens ih =>
    cases hw with
    | nil => exact absurd opens h.not_opens_start
    | concat hword opens' =>
      obtain rfl := opens.unique opens'
      rw [ih hword]

/-- The words that opening edges spell are in the order of the states. -/
theorem wordBefore_of_lt (h : a.Sequential) (hv : a.Spelled v s) (hw : a.Spelled w t)
    (hst : s < t) : WordBefore v w := by
  induction hw generalizing v s with
  | nil =>
    cases hv with
    | nil => exact absurd hst (UInt32.lt_irrefl _)
    | concat _ opens =>
      have hle := h.start_le _ opens.mem_states
      exact absurd (UInt32.lt_of_le_of_lt hle hst) (UInt32.lt_irrefl _)
  | @concat w e t hword opens ih =>
    cases hv with
    | nil => exact .of_length_lt (by simp)
    | @concat v d _ hword' opens' =>
      have hle : s ≤ e.target := opens.target_eq ▸ UInt32.le_of_lt hst
      rcases opens'.first e opens.mem hle with rfl | hearlier | ⟨hsource, hlabel⟩
      · rw [← opens'.target_eq, ← opens.target_eq] at hst
        exact absurd hst (UInt32.lt_irrefl _)
      · exact (ih hword' hearlier).concat
      · rw [hsource] at hword'
        rw [h.spelled_unique hword' hword]
        exact .concat_of_label hlabel

/-- No word comes before the one that opening edges spell. -/
theorem spelled_le (h : a.Sequential) (hv : a.Spelled v s) (hw : a.Reaches w s) :
    w = v ∨ WordBefore v w := by
  induction w using List.reverseRecOn generalizing v s with
  | nil =>
    obtain rfl := path_nil.1 hw
    exact .inl (h.spelled_unique .nil hv)
  | append_singleton w l ih =>
    obtain ⟨r, hr, hlast⟩ := path_append.1 hw
    obtain ⟨e, he, rfl, rfl, hnil⟩ := path_cons.1 hlast
    have htarget : e.target = s := path_nil.1 hnil
    cases hv with
    | nil => exact .inr (.of_length_lt (by simp))
    | @concat v d _ hword opens =>
      -- the last edge is the one that opens the state, or it leaves a later state, or it leaves the
      -- same state under a later label
      rcases opens.first e he (htarget ▸ UInt32.le_refl _) with rfl | hearlier | ⟨hsource, hlabel⟩
      · rcases ih hword hr with rfl | hbefore
        · exact .inl rfl
        · exact .inr hbefore.concat
      · -- the word before the last label comes after another word that is spelled
        obtain ⟨u, hu⟩ := h.exists_spelled (hasState_iff.1 (hasState_source he))
        have hvu := h.wordBefore_of_lt hword hu hearlier
        right
        rcases ih hu hr with rfl | huw
        · exact hvu.concat
        · exact (hvu.trans huw).concat
      · rw [hsource] at hword
        right
        rcases ih hword hr with rfl | hbefore
        · exact .concat_of_label hlabel
        · exact hbefore.concat

/-- The word that is spelled for a state is its least word. -/
theorem leastWord_of_spelled (h : a.Sequential) (hw : a.Spelled w s) : a.LeastWord w s :=
  ⟨hw.reaches, fun _ hv => h.spelled_le hw hv⟩

/-- Each state has a least word. -/
theorem exists_leastWord (h : a.Sequential) (hs : s ∈ a.states) : ∃ w, a.LeastWord w s := by
  obtain ⟨w, hw⟩ := h.exists_spelled hs
  exact ⟨w, h.leastWord_of_spelled hw⟩

/-- The least word of a state is spelled. -/
theorem spelled_of_leastWord (h : a.Sequential) (hs : s ∈ a.states) (hv : a.LeastWord v s) :
    a.Spelled v s := by
  obtain ⟨w, hw⟩ := h.exists_spelled hs
  rw [hv.unique (h.leastWord_of_spelled hw)]
  exact hw

/-- States lie in the order of their least words. -/
theorem lt_iff_wordBefore (h : a.Sequential) (hs : s ∈ a.states) (ht : t ∈ a.states)
    (hv : a.LeastWord v s) (hw : a.LeastWord w t) : s < t ↔ WordBefore v w := by
  have hv := h.spelled_of_leastWord hs hv
  have hw := h.spelled_of_leastWord ht hw
  constructor
  · exact h.wordBefore_of_lt hv hw
  · intro hbefore
    obtain hst | rfl | hts : s < t ∨ s = t ∨ t < s := by
      simp only [UInt32.lt_iff_toNat_lt, ← UInt32.toNat_inj]
      omega
    · exact hst
    · rw [h.spelled_unique hv hw] at hbefore
      exact absurd hbefore WordBefore.irrefl
    · exact absurd (hbefore.trans (h.wordBefore_of_lt hw hv hts)) WordBefore.irrefl

end Sequential

end Automaton

end TouchAutomata
