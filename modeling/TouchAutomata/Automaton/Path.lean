import TouchAutomata.Automaton.Basic

/-!
# Words and paths

A word is a list of labels. A path follows one edge for each label of a word; what an automaton
reads, and which states it can be in afterwards, is told by its paths. The main statement is
`path_append`: a path for two words in a row goes through a state between them. What edges preserve,
paths preserve (`Path.invariant`).
-/

set_option autoImplicit false

namespace TouchAutomata.Automaton

/-- A word leads from one state to another along edges with the labels of the word. -/
inductive Path (a : Automaton) : StateId → List String → StateId → Prop where
  | nil (s : StateId) : Path a s [] s
  | cons {e : Edge} {w : List String} {t : StateId} (mem : e ∈ a.edges)
      (rest : Path a e.target w t) : Path a e.source (e.label :: w) t

/-- A word leads from the start state to a state. -/
def Reaches (a : Automaton) (w : List String) (s : StateId) : Prop := a.Path a.start w s

/-- A word leads from the start state to an accepting state. -/
def Recognizes (a : Automaton) (w : List String) : Prop :=
  ∃ s, a.Reaches w s ∧ a.accepts s = true

variable {a : Automaton} {s t : StateId}

/-- The empty word leads from a state to itself only. -/
@[simp] theorem path_nil : a.Path s [] t ↔ s = t :=
  ⟨fun h => by cases h; rfl, fun h => h ▸ .nil s⟩

/-- A word that is not empty leads along an edge with its first label, and from the target on with
the rest. -/
theorem path_cons {l : String} {w : List String} :
    a.Path s (l :: w) t ↔ ∃ e ∈ a.edges, e.source = s ∧ e.label = l ∧ a.Path e.target w t := by
  constructor
  · intro h
    cases h with
    | cons mem rest => exact ⟨_, mem, rfl, rfl, rest⟩
  · rintro ⟨e, mem, rfl, rfl, rest⟩
    exact .cons mem rest

/-- Two words in a row lead to a state by way of a state between them. -/
theorem path_append {v w : List String} :
    a.Path s (v ++ w) t ↔ ∃ r, a.Path s v r ∧ a.Path r w t := by
  induction v generalizing s with
  | nil => simp
  | cons l v ih =>
    simp only [List.cons_append, path_cons, ih]
    grind

/-- What every edge preserves holds at the end of a path if it holds at the beginning. -/
theorem Path.invariant {P : StateId → Prop} {w : List String} (h : a.Path s w t)
    (step : ∀ e ∈ a.edges, P e.source → P e.target) (hs : P s) : P t := by
  induction h with
  | nil => exact hs
  | cons mem _ ih => exact ih (step _ mem hs)

end TouchAutomata.Automaton
