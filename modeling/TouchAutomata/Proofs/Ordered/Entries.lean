import TouchAutomata.Proofs.Ordered.Lookup
import Mathlib.Data.List.Forall2

/-!
# The entries of a map

Where an update puts its entry, and what becomes of entries when their keys or values are
replaced.
-/

set_option autoImplicit false

namespace TouchAutomata

section Lists

variable {κ ν μ : Type}

/-- A key that is replaced together with those of all entries is found where it was, if no other
key is replaced by the same. -/
theorem lookup_map_keys {κ' : Type} [DecidableEq κ] [DecidableEq κ'] {g : κ → κ'} {k : κ}
    {l : List (κ × ν)} (apart : ∀ e ∈ l, g k = g e.1 → k = e.1) :
    (l.map (Prod.map g id)).lookup (g k) = l.lookup k := by
  induction l with
  | nil => rfl
  | cons e rest ih =>
    obtain ⟨c, v⟩ := e
    have hiff : g k = g c ↔ k = c := ⟨apart (c, v) (by simp), congrArg g⟩
    have hrest := ih fun e he => apart e (by simp [he])
    rw [List.map_cons, Prod.map_apply, lookup_cons_eq_ite, lookup_cons_eq_ite, hrest]
    simp only [hiff, id]

/-- Lists of entries with the same keys have related values, if entries with one key do. -/
theorem forall₂_values {R : ν → μ → Prop} {l : List (κ × ν)} {m : List (κ × μ)}
    (keys : l.map Prod.fst = m.map Prod.fst)
    (h : ∀ k u v, (k, u) ∈ l → (k, v) ∈ m → R u v) :
    List.Forall₂ R (l.map Prod.snd) (m.map Prod.snd) := by
  induction l generalizing m with
  | nil =>
    cases m with
    | nil => exact .nil
    | cons q m => simp at keys
  | cons p l ih =>
    cases m with
    | nil => simp at keys
    | cons q m =>
      obtain ⟨hkey, hkeys⟩ := List.cons.inj keys
      refine .cons (h p.1 p.2 q.2 (by simp) ?_) (ih hkeys fun k u v hu hv => ?_)
      · rw [hkey]
        exact List.mem_cons_self
      · exact h k u v (by simp [hu]) (by simp [hv])

end Lists

section Updates

variable {κ ν μ : Type} [Ord κ]

/-- The entry of a key that comes after all others is the last. -/
theorem updateAscending_eq_append [Std.TransOrd κ] {k : κ} {f : Option ν → ν}
    {l : List (κ × ν)} (last : ∀ c ∈ l.map Prod.fst, compare c k = .lt) :
    updateAscending k f l = l ++ [(k, f none)] := by
  induction l with
  | nil => rfl
  | cons e rest ih =>
    obtain ⟨c, v⟩ := e
    have hck : compare k c = .gt := Std.OrientedCmp.gt_of_lt (last c (by simp))
    have hrest : ∀ b ∈ rest.map Prod.fst, compare b k = .lt := fun b hb => last b (by simp [hb])
    rw [updateAscending, hck]
    exact congrArg ((c, v) :: ·) (ih hrest)

/-- An entry that is set and then changed with the others is set as changed. -/
theorem map_updateAscending {g : ν → μ} {k : κ} {v : ν} {l : List (κ × ν)} :
    (updateAscending k (fun _ => v) l).map (fun e => (e.1, g e.2)) =
      updateAscending k (fun _ => g v) (l.map fun e => (e.1, g e.2)) := by
  induction l with
  | nil => rfl
  | cons e rest ih =>
    simp only [updateAscending, List.map_cons]
    split
    · rfl
    · rfl
    · rw [List.map_cons, ih]

variable [Std.TransOrd κ] [Std.LawfulEqOrd κ]

/-- To change all values after one was set is to set the changed one among the changed values. -/
theorem OrderedMap.mapValues_insert {m : OrderedMap κ ν} {g : ν → μ} {k : κ} {v : ν} :
    (m.insert k v).mapValues g = (m.mapValues g).insert k (g v) :=
  OrderedMap.ext_toList map_updateAscending

omit [Std.TransOrd κ] [Std.LawfulEqOrd κ] in
/-- Values can be changed before or after entries are left out by their keys. -/
theorem OrderedMap.mapValues_filterKeys {m : OrderedMap κ ν} {g : ν → μ} {p : κ → Bool} :
    (m.filterKeys p).mapValues g = (m.mapValues g).filterKeys p := by
  apply OrderedMap.ext_toList
  simp only [OrderedMap.mapValues, OrderedMap.filterKeys, List.filter_map]
  rfl

end Updates

end TouchAutomata
