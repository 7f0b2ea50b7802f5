import TouchAutomata.Determinization.NamedSets
import TouchAutomata.Proofs.Ordered.Entries
import TouchAutomata.Proofs.Text.Numerals

/-!
# Texts of sets of states

A number is written with digits only and with one at least. So the pieces of a text that stand
between its low lines and have characters are the members of the set (`pieces_stateSetText`), and a
text belongs to one set only (`stateSetText_inj`). It makes no difference, then, whether an
exploration knows the sets it has found by their texts or by themselves: each label is followed to
the same number (`namedOutcome_follow`), and so each exploration ends in the same way
(`stateSetText_eq_iff`).
-/

set_option autoImplicit false

namespace TouchAutomata

variable {S T : StateSet} {s t : StateId}

/-! ## Members -/

/-- How a member stands in the text of a set. -/
def memberText (s : StateId) : List Char := (toString s).toList

/-- The text of a member is read as its number. -/
theorem readNat_memberText (s : StateId) : Numeral.readNat (memberText s) = some s.toNat :=
  Numeral.readNat_toString_word s

/-- The text of a member has a digit. -/
theorem memberText_ne_nil (s : StateId) : memberText s ≠ [] :=
  (Numeral.readNat_eq_some_iff.1 (readNat_memberText s)).1

/-- The text of a member does not have the separator in it. -/
theorem lowLine_not_mem_memberText (s : StateId) : '_' ∉ memberText s := by
  intro h
  have hdigit := (Numeral.readNat_eq_some_iff.1 (readNat_memberText s)).2.1 '_' h
  exact absurd hdigit (by decide)

/-- Different members have different texts. -/
theorem eq_of_memberText_eq (h : memberText s = memberText t) : s = t := by
  have hread := readNat_memberText s
  rw [h, readNat_memberText t] at hread
  exact UInt32.toNat_inj.1 (Option.some.inj hread).symm

/-! ## Texts -/

/-- The text of a set has the texts of its members, with the separator between them. -/
theorem toList_stateSetText (S : StateSet) :
    (stateSetText S).toList = ['_'].intercalate (S.toList.map memberText) := by
  rw [stateSetText, String.toList_intercalate, List.map_map]
  rfl

/-- The pieces between the low lines that have characters are the members. -/
theorem pieces_stateSetText (S : StateSet) :
    ((stateSetText S).toList.splitOn '_').filter (fun piece => !piece.isEmpty) =
      S.toList.map memberText := by
  have hpieces : ∀ piece ∈ S.toList.map memberText, '_' ∉ piece ∧ piece ≠ [] := by
    intro piece hpiece
    obtain ⟨s, -, rfl⟩ := List.mem_map.1 hpiece
    exact ⟨lowLine_not_mem_memberText s, memberText_ne_nil s⟩
  rw [toList_stateSetText]
  by_cases hnone : S.toList.map memberText = []
  · -- the text of the empty set has one piece, and this has no characters
    rw [hnone]
    rfl
  · rw [List.splitOn_intercalate '_' (fun piece h => (hpieces piece h).1) hnone,
      List.filter_eq_self]
    intro piece hpiece
    simpa using (hpieces piece hpiece).2

/-- Different sets have different texts. -/
theorem stateSetText_inj : stateSetText S = stateSetText T ↔ S = T := by
  constructor
  · intro h
    apply OrderedSet.ext_toList
    rw [← List.map_inj_right fun s t => eq_of_memberText_eq, ← pieces_stateSetText, h,
      pieces_stateSetText]
  · exact congrArg stateSetText

namespace Exploration

variable {a : Automaton} {limit : StateLimit} {n : StateId}

/-! ## Explorations by texts -/

/-- An exploration with the texts of the sets it has found in place of the sets. -/
def named (x : Exploration) : NamedExploration where
  numbers := x.found.map (Prod.map stateSetText id)
  pending := x.pending
  fresh := x.fresh
  result := x.result

/-- How an exploration ends, with texts in place of the sets found. -/
def namedOutcome : Except Halt Exploration → Except NamedExploration.Halt NamedExploration
  | .ok x => .ok x.named
  | .error halt => .error ⟨halt.fault, halt.reached.named⟩

/-- Looked up by its text, a set has the number it has. -/
theorem number?_named (x : Exploration) (S : StateSet) : x.named.number? S = x.number? S :=
  lookup_map_keys fun _ _ htext => stateSetText_inj.1 htext

/-- By texts as by sets, the limit is met at the same time. -/
theorem isFull_named (x : Exploration) : x.named.isFull = x.isFull := by
  funext c
  rw [NamedExploration.isFull, isFull, named, List.length_map]

/-- A set is discovered by its text as by itself. -/
theorem named_discover (x : Exploration) (S : StateSet) :
    (x.discover S).named = x.named.discover S := by
  simp [named, discover, NamedExploration.discover]

/-- A label is followed to the same number, or halts the exploration for the same reason. -/
theorem namedOutcome_follow (x : Exploration) (g : LabelGroup) :
    namedOutcome (follow limit n x g) = NamedExploration.follow limit n x.named g := by
  rw [follow, NamedExploration.follow, number?_named, isFull_named]
  cases x.number? g.targets with
  | some m => rfl
  | none =>
    cases limit.filter x.isFull with
    | some c => rfl
    | none =>
      rw [← named_discover]
      rfl

/-- Two steps that end alike by texts and by sets end alike one after the other. -/
theorem namedOutcome_bind {r : Except Halt Exploration}
    {k : Exploration → Except Halt Exploration}
    {k' : NamedExploration → Except NamedExploration.Halt NamedExploration}
    (h : ∀ x, namedOutcome (k x) = k' x.named) :
    namedOutcome (r >>= k) = namedOutcome r >>= k' := by
  cases r with
  | error halt => rfl
  | ok x => exact h x

/-- Labels are followed by texts as by sets. -/
theorem namedOutcome_foldlM_follow (gs : List LabelGroup) (x : Exploration) :
    namedOutcome (gs.foldlM (follow limit n) x) =
      gs.foldlM (NamedExploration.follow limit n) x.named := by
  induction gs generalizing x with
  | nil => rfl
  | cons g gs ih =>
    rw [List.foldlM_cons, List.foldlM_cons, ← namedOutcome_follow]
    exact namedOutcome_bind ih

/-- A set is expanded by texts as by sets. -/
theorem namedOutcome_expand (x : Exploration) (S : StateSet) :
    namedOutcome (expand a limit x S n) = NamedExploration.expand a limit x.named S n := by
  rw [expand, NamedExploration.expand]
  cases S.toList.find? fun s => !a.hasState s with
  | some s => rfl
  | none => exact namedOutcome_foldlM_follow _ x

/-- Whatever was found before, an exploration goes on by texts as it does by sets. -/
theorem namedOutcome_explore (rounds : Nat) (x : Exploration) :
    namedOutcome (explore a limit rounds x) =
      NamedExploration.explore a limit rounds x.named := by
  induction rounds generalizing x with
  | zero => rfl
  | succ rounds ih =>
    have hpending : x.named.pending = x.pending := rfl
    rw [explore, NamedExploration.explore, hpending]
    cases x.pending with
    | nil => rfl
    | cons p rest =>
      dsimp only
      rw [namedOutcome_bind ih, namedOutcome_expand]
      rfl

end Exploration

/-- Two sets have the same text exactly when they are the same set. So an exploration that knows the
sets found by their texts gives a text the number of its set, lays the same edges and halts for the
same reasons as the one that knows them by themselves. -/
theorem stateSetText_eq_iff (S T : StateSet) :
    (stateSetText S = stateSetText T ↔ S = T) ∧
    ∀ (a target : Automaton) (limit : StateLimit),
      NamedExploration.ofAutomaton a limit target =
        Exploration.namedOutcome (Exploration.ofAutomaton a limit target) := by
  refine ⟨stateSetText_inj, ?_⟩
  intro a target limit
  have hbegin : (Exploration.begin a.start target).named =
    NamedExploration.begin a.start target := rfl
  rw [Exploration.ofAutomaton, Exploration.namedOutcome_explore, hbegin]
  rfl

end TouchAutomata
