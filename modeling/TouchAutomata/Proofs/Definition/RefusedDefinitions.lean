import TouchAutomata.Proofs.Definition.BuiltEdges
import TouchAutomata.Proofs.Touch.StrictReading

/-!
# Definitions that a policy refuses

When a definition is built, its touches are read in the order of its edges, and nothing else can
fail. So a policy builds a definition exactly when it reads all its touches, those of repeated
edges too, and what it builds is the same under each policy (`build_eq_ok_iff`). Otherwise the fault
is that of the first touch that it refuses (`build_eq_error_iff`). The strict policy is thus a
filter before the lenient one (`build_strict_iff`).
-/

set_option autoImplicit false

namespace TouchAutomata

/-- A text that the strict policy refuses is named in the fault. -/
theorem Touch.exists_reason_of_read {s : String} {fault : Fault}
    (h : Touch.read .strict s = .error fault) : ∃ reason, fault = .malformedTouch s reason := by
  by_cases hcore : ∃ a n, ProperCore (ofEncoding s).core.toList a n
  · obtain ⟨a, n, hproper⟩ := hcore
    rw [read_strict_of_properCore hproper] at h
    exact nomatch h
  · obtain ⟨reason, hreason⟩ := read_strict_of_not_properCore hcore
    exact ⟨reason, Except.error.inj (h.symm.trans hreason)⟩

/-- A policy reads the touch of an edge. -/
def DefinedEdge.ReadBy (policy : Policy) (x : DefinedEdge) : Prop :=
  ∃ t, Touch.read policy x.symbol = .ok t

namespace Definition

variable {policy : Policy} {d : Definition} {a b : Automaton} {x : DefinedEdge}
variable {xs ys zs : List DefinedEdge} {fault : Fault}

/-! ## One edge -/

/-- An edge whose symbol is read is added. -/
theorem addEdge_of_readBy (h : x.ReadBy policy) : addEdge policy a x = .ok (a.add x.toEdge) := by
  obtain ⟨t, ht⟩ := h
  obtain rfl := Touch.eq_ofEncoding_of_read ht
  rw [addEdge, ht]
  rfl

/-- An edge whose symbol is refused is refused with the same fault. -/
theorem addEdge_of_fault (h : Touch.read policy x.symbol = .error fault) :
    addEdge policy a x = .error fault := by
  rw [addEdge, h]
  rfl

/-! ## All edges in order -/

/-- Edges whose symbols are all read are all added. -/
theorem foldlM_addEdge_of_readBy (h : ∀ x ∈ xs, x.ReadBy policy) :
    xs.foldlM (addEdge policy) a = .ok (a.addAll (xs.map DefinedEdge.toEdge)) := by
  induction xs generalizing a with
  | nil => rfl
  | cons x xs ih =>
    obtain ⟨hx, hxs⟩ := List.forall_mem_cons.1 h
    rw [List.foldlM_cons, addEdge_of_readBy hx]
    exact ih hxs

/-- Once the touches before it are read, a touch that is refused ends the building. -/
theorem foldlM_addEdge_of_fault (hys : ∀ y ∈ ys, y.ReadBy policy)
    (hx : Touch.read policy x.symbol = .error fault) :
    (ys ++ x :: zs).foldlM (addEdge policy) a = .error fault := by
  rw [List.foldlM_append, foldlM_addEdge_of_readBy hys]
  show (x :: zs).foldlM (addEdge policy) (a.addAll (ys.map DefinedEdge.toEdge)) = _
  rw [List.foldlM_cons, addEdge_of_fault hx]
  rfl

/-- If a policy does not read all touches, there is a first one that it refuses. -/
theorem exists_first_fault (h : ¬ ∀ x ∈ xs, x.ReadBy policy) :
    ∃ ys x zs fault, xs = ys ++ x :: zs ∧ (∀ y ∈ ys, y.ReadBy policy) ∧
      Touch.read policy x.symbol = .error fault := by
  induction xs with
  | nil => exact absurd (List.forall_mem_nil _) h
  | cons x xs ih =>
    cases hread : Touch.read policy x.symbol with
    | error fault => exact ⟨[], x, xs, fault, rfl, by simp, hread⟩
    | ok t =>
      have hx : x.ReadBy policy := ⟨t, hread⟩
      obtain ⟨ys, y, zs, fault, rfl, hys, hy⟩ :=
        ih fun hxs => h (List.forall_mem_cons.2 ⟨hx, hxs⟩)
      exact ⟨x :: ys, y, zs, fault, rfl, List.forall_mem_cons.2 ⟨hx, hys⟩, hy⟩

/-! ## What is built -/

/-- A policy builds a definition exactly when it reads all touches, and then it adds all edges. -/
theorem build_eq_ok_iff : d.build policy = .ok b ↔
    (∀ x ∈ d.edges, x.ReadBy policy) ∧ b = d.blank.addAll (d.edges.map DefinedEdge.toEdge) := by
  constructor
  · intro hbuild
    refine ⟨?_, build_eq_ok hbuild⟩
    by_contra hall
    obtain ⟨ys, x, zs, fault, hsplit, hys, hx⟩ := exists_first_fault hall
    rw [build, hsplit, foldlM_addEdge_of_fault hys hx] at hbuild
    exact nomatch hbuild
  · rintro ⟨hall, rfl⟩
    exact foldlM_addEdge_of_readBy hall

/-- A policy refuses a definition with the fault of the first touch that it refuses. -/
theorem build_eq_error_iff : d.build policy = .error fault ↔
    ∃ ys x zs, d.edges = ys ++ x :: zs ∧ (∀ y ∈ ys, y.ReadBy policy) ∧
      Touch.read policy x.symbol = .error fault := by
  constructor
  · intro hbuild
    have hall : ¬ ∀ x ∈ d.edges, x.ReadBy policy := by
      intro hall
      rw [build_eq_ok_iff.2 ⟨hall, rfl⟩] at hbuild
      exact nomatch hbuild
    obtain ⟨ys, x, zs, first, hsplit, hys, hx⟩ := exists_first_fault hall
    rw [build, hsplit, foldlM_addEdge_of_fault hys hx] at hbuild
    obtain rfl := Except.error.inj hbuild
    exact ⟨ys, x, zs, hsplit, hys, hx⟩
  · rintro ⟨ys, x, zs, hsplit, hys, hx⟩
    rw [build, hsplit]
    exact foldlM_addEdge_of_fault hys hx

/-- The lenient policy builds every definition. The strict policy builds a definition exactly when
it reads the touches of all its edges, and it builds the same automaton, with the same triggers.
Otherwise it refuses the definition and names the first text that it refuses. -/
theorem build_strict_iff (d : Definition) :
    ∃ a, d.build .lenient = .ok a ∧
      (∀ b, d.build .strict = .ok b ↔
        (∀ x ∈ d.edges, ∃ t, Touch.read .strict x.symbol = .ok t) ∧ b = a) ∧
      (∀ fault, d.build .strict = .error fault ↔
        ∃ ys x zs reason, d.edges = ys ++ x :: zs ∧
          (∀ y ∈ ys, ∃ t, Touch.read .strict y.symbol = .ok t) ∧
          Touch.read .strict x.symbol = .error fault ∧
          fault = .malformedTouch x.symbol reason) := by
  refine ⟨_, build_lenient d, fun b => build_eq_ok_iff, fun fault => ?_⟩
  rw [build_eq_error_iff]
  constructor
  · rintro ⟨ys, x, zs, hsplit, hys, hx⟩
    obtain ⟨reason, hreason⟩ := Touch.exists_reason_of_read hx
    exact ⟨ys, x, zs, reason, hsplit, hys, hx, hreason⟩
  · rintro ⟨ys, x, zs, -, hsplit, hys, hx, -⟩
    exact ⟨ys, x, zs, hsplit, hys, hx⟩

end Definition

end TouchAutomata
