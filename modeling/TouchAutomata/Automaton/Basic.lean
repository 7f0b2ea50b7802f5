import TouchAutomata.Fault
import TouchAutomata.Touch.Basic

/-!
# Automata over touches

An automaton is a start state and a list of edges, each from a state to a state under a touch.
The edges lie in ascending order of their ends, and in the order of their insertion between the
same ends; no two edges have ends and label in common. The states are the ends of the edges,
and a state accepts when no edge leaves it. Deterministic and nondeterministic automata share
this type.
-/

set_option autoImplicit false

namespace TouchAutomata

/-- Finite sets of states. -/
abbrev StateSet := OrderedSet StateId

/-- One edge of an automaton. -/
structure Edge where
  source : StateId
  target : StateId
  touch : Touch
  deriving DecidableEq, Inhabited

namespace Edge

/-- The label under which an edge is followed. -/
def label (e : Edge) : String := e.touch.label

/-- The ends of `d` come before those of `e`; the source counts first. -/
def Before (d e : Edge) : Prop :=
  d.source < e.source ∨ d.source = e.source ∧ d.target < e.target

instance (d e : Edge) : Decidable (d.Before e) := by unfold Before; infer_instance

/-- The two edges have the same ends and the same label. -/
def Twin (d e : Edge) : Prop :=
  d.source = e.source ∧ d.target = e.target ∧ d.label = e.label

instance (d e : Edge) : Decidable (d.Twin e) := by unfold Twin; infer_instance

/-- Coming before is transitive, as the ends are compared one after the other. -/
theorem Before.trans {c d e : Edge} (hcd : c.Before d) (hde : d.Before e) : c.Before e := by
  simp only [Before, UInt32.lt_iff_toNat_lt, ← UInt32.toNat_inj] at *
  omega

/-- Of two edges at most one comes before the other. -/
theorem Before.asymm {d e : Edge} (h : d.Before e) : ¬ e.Before d := by
  simp only [Before, UInt32.lt_iff_toNat_lt, ← UInt32.toNat_inj] at *
  omega

/-- Puts an edge behind all edges whose ends do not come after its own. -/
def place (e : Edge) : List Edge → List Edge
  | [] => [e]
  | d :: ds => if e.Before d then e :: d :: ds else d :: place e ds

/-- In order of their ends, and free of twins. -/
def Orderly (l : List Edge) : Prop :=
  l.Pairwise fun d e => ¬ e.Before d ∧ ¬ d.Twin e

/-- An edge that is put at its place joins the others, and none of them is lost. -/
theorem mem_place {d e : Edge} {l : List Edge} : d ∈ place e l ↔ d = e ∨ d ∈ l := by
  induction l with
  | nil => simp [place]
  | cons c l ih =>
    simp only [place]
    split
    · simp
    · simp only [List.mem_cons, ih]
      grind

/-- A list in order stays in order when an edge without a twin in it is put at its place. -/
theorem Orderly.place {e : Edge} {l : List Edge} (h : Orderly l)
    (new : ∀ d ∈ l, ¬ d.Twin e) : Orderly (place e l) := by
  induction l with
  | nil => simp [Edge.place, Orderly]
  | cons c l ih =>
    obtain ⟨hc, hl⟩ := List.pairwise_cons.1 h
    simp only [Edge.place]
    split
    · rename_i hec
      refine List.pairwise_cons.2 ⟨fun d hd => ⟨fun hde => ?_, fun t => ?_⟩, h⟩
      · rcases List.mem_cons.1 hd with rfl | hd
        · exact hec.asymm hde
        · exact (hc d hd).1 (hde.trans hec)
      · exact new d hd ⟨t.1.symm, t.2.1.symm, t.2.2.symm⟩
    · rename_i hec
      refine List.pairwise_cons.2 ⟨fun d hd => ?_, ih hl fun d hd => new d (by simp [hd])⟩
      rcases mem_place.1 hd with rfl | hd
      · exact ⟨hec, new c (by simp)⟩
      · exact hc d hd

end Edge

/-- A start state and edges in order. -/
structure Automaton where
  start : StateId
  edges : List Edge
  orderly : Edge.Orderly edges

namespace Automaton

/-- An automaton is its start state and its edges. -/
theorem ext_edges {a b : Automaton} (hs : a.start = b.start) (he : a.edges = b.edges) : a = b := by
  cases a; cases b; simp_all

instance : DecidableEq Automaton := fun a b =>
  decidable_of_iff (a.start = b.start ∧ a.edges = b.edges)
    ⟨fun h => ext_edges h.1 h.2, fun h => h ▸ ⟨rfl, rfl⟩⟩

/-- The start state of an automaton for which none was chosen. -/
def defaultStart : StateId := 1

/-- The automaton without edges. -/
def empty : Automaton := ⟨defaultStart, [], List.Pairwise.nil⟩

instance : EmptyCollection Automaton := ⟨empty⟩
instance : Inhabited Automaton := ⟨∅⟩

/-- Chooses the start state. -/
def withStart (a : Automaton) (s : StateId) : Automaton := { a with start := s }

/-- Adds an edge, unless there is one with the same ends and the same label. -/
def add (a : Automaton) (e : Edge) : Automaton :=
  if h : ∃ d ∈ a.edges, d.Twin e then a
  else
    { a with
      edges := Edge.place e a.edges
      orderly := a.orderly.place fun d hd t => h ⟨d, hd, t⟩ }

/-- Adds edges one after the other. -/
def addAll (a : Automaton) (es : List Edge) : Automaton := es.foldl add a

/-- Drops pairs of ends that no label joins. An edge is made together with its label, so there
are none. -/
def dropUnlabelled (a : Automaton) : Automaton := a

/-- The edges that leave a state. -/
def leaving (a : Automaton) (s : StateId) : List Edge :=
  a.edges.filter fun e => e.source = s

/-- The ends of all edges. -/
def states (a : Automaton) : StateSet :=
  .ofList (a.edges.flatMap fun e => [e.source, e.target])

/-- Whether a state is an end of an edge. -/
def hasState (a : Automaton) (s : StateId) : Bool :=
  a.edges.any fun e => e.source = s || e.target = s

/-- Whether there is no edge, and so no state. -/
def isEmpty (a : Automaton) : Bool := a.edges.isEmpty

/-- How many states there are. -/
def stateCount (a : Automaton) : Nat := a.states.size

/-- How many edges there are; edges with the same ends count by their labels. -/
def transitionCount (a : Automaton) : Nat := a.edges.length

/-- Whether a state is there and no edge leaves it. -/
def accepts (a : Automaton) (s : StateId) : Bool :=
  a.hasState s && (a.leaving s).isEmpty

/-- The accepting states, ascending. -/
def acceptStates (a : Automaton) : List StateId := a.states.toList.filter a.accepts

/-- Whether two automata have the same start state and, in the same order, edges with the same
ends and labels. Triggers do not count. -/
def alike (a b : Automaton) : Bool :=
  let outline (e : Edge) := (e.source, e.target, e.label)
  a.start = b.start && a.edges.map outline = b.edges.map outline

/-- The start state is the one chosen. -/
@[simp] theorem start_withStart (a : Automaton) (s : StateId) : (a.withStart s).start = s := rfl

/-- To choose a start state does not change the edges. -/
@[simp] theorem edges_withStart (a : Automaton) (s : StateId) :
    (a.withStart s).edges = a.edges := rfl

/-- To add an edge does not change the start state. -/
@[simp] theorem start_add (a : Automaton) (e : Edge) : (a.add e).start = a.start := by
  unfold add; split <;> rfl

/-- Unless it has a twin among the edges, an added edge is put at its place between them. -/
theorem edges_add (a : Automaton) (e : Edge) :
    (a.add e).edges = if ∃ d ∈ a.edges, d.Twin e then a.edges else Edge.place e a.edges := by
  unfold add; split <;> simp_all

/-- The states are the ends of the edges. -/
@[simp] theorem mem_states {a : Automaton} {s : StateId} :
    s ∈ a.states ↔ ∃ e ∈ a.edges, e.source = s ∨ e.target = s := by
  simp only [states, OrderedSet.mem_ofList, List.mem_flatMap]
  grind

/-- The test finds exactly the members of the set of states. -/
theorem hasState_iff {a : Automaton} {s : StateId} : a.hasState s = true ↔ s ∈ a.states := by
  simp [hasState, mem_states]

/-- The source of an edge is a state. -/
theorem hasState_source {a : Automaton} {e : Edge} (h : e ∈ a.edges) :
    a.hasState e.source = true :=
  hasState_iff.2 (mem_states.2 ⟨e, h, .inl rfl⟩)

/-- The target of an edge is a state. -/
theorem hasState_target {a : Automaton} {e : Edge} (h : e ∈ a.edges) :
    a.hasState e.target = true :=
  hasState_iff.2 (mem_states.2 ⟨e, h, .inr rfl⟩)

/-- The edges that leave a state are those that have it as their source. -/
@[simp] theorem mem_leaving {a : Automaton} {s : StateId} {e : Edge} :
    e ∈ a.leaving s ↔ e ∈ a.edges ∧ e.source = s := by
  simp [leaving]

end Automaton

end TouchAutomata
