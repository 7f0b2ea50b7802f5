import TouchAutomata.Ordered.Map

/-!
# Looking up keys

What a look-up finds in a list of entries without double keys, and in a map after an update.
-/

set_option autoImplicit false

namespace TouchAutomata

section Lists

variable {κ ν : Type} [DecidableEq κ]

/-- The first entry answers a look-up for its key, and the others any other one. -/
theorem lookup_cons_eq_ite (k c : κ) (v : ν) (rest : List (κ × ν)) :
    ((c, v) :: rest).lookup k = if k = c then some v else rest.lookup k := by
  rw [List.lookup_cons]
  split <;> simp_all

/-- If no key stands twice, an entry is what a look-up of its key finds. -/
theorem lookup_eq_some_iff_mem {l : List (κ × ν)} (distinct : (l.map Prod.fst).Nodup)
    {k : κ} {v : ν} : l.lookup k = some v ↔ (k, v) ∈ l := by
  induction l with
  | nil => simp
  | cons e rest ih =>
    obtain ⟨c, u⟩ := e
    obtain ⟨hc, hrest⟩ := List.nodup_cons.1 distinct
    rw [lookup_cons_eq_ite]
    by_cases h : k = c
    · subst h
      have hv : (k, v) ∉ rest := fun hv => hc (List.mem_map.2 ⟨_, hv, rfl⟩)
      simp [hv, eq_comm]
    · simp [h, ih hrest]

end Lists

variable {κ ν : Type} [Ord κ]

/-- An ascending list has no entry twice. -/
theorem Ascending.nodup [Std.LawfulEqOrd κ] {l : List κ} (h : Ascending l) : l.Nodup := by
  refine List.Pairwise.imp ?_ h
  rintro a b hab rfl
  simp at hab

variable [Std.TransOrd κ] [Std.LawfulEqOrd κ] [DecidableEq κ]

/-- What comes before all keys of an ascending list is not found in it. -/
theorem lookup_eq_none_of_lt {k c : κ} {v : ν} {rest : List (κ × ν)}
    (h : Ascending (((c, v) :: rest).map Prod.fst)) (hk : compare k c = .lt) :
    ((c, v) :: rest).lookup k = none := by
  obtain ⟨hc, -⟩ := List.pairwise_cons.1 h
  refine List.lookup_eq_none_iff.2 fun p hp => ?_
  rw [bne_iff_ne]
  rintro rfl
  rcases List.mem_cons.1 hp with rfl | hp
  · simp at hk
  · have := Std.TransCmp.lt_trans hk (hc _ (List.mem_map_of_mem hp))
    simp at this

/-- An update changes what is found at its key and nothing else. -/
theorem lookup_updateAscending (k : κ) (f : Option ν → ν) {l : List (κ × ν)}
    (h : Ascending (l.map Prod.fst)) (c : κ) :
    (updateAscending k f l).lookup c = if c = k then some (f (l.lookup k)) else l.lookup c := by
  induction l with
  | nil => simp [updateAscending, lookup_cons_eq_ite]
  | cons e rest ih =>
    obtain ⟨b, v⟩ := e
    simp only [updateAscending]
    split
    · rename_i hlt
      rw [lookup_cons_eq_ite, lookup_eq_none_of_lt h hlt]
    · rename_i heq
      obtain rfl := Std.LawfulEqOrd.eq_of_compare heq
      by_cases hc : c = k <;> simp [lookup_cons_eq_ite, hc]
    · rename_i hgt
      have hne : k ≠ b := by
        rintro rfl
        simp at hgt
      rw [lookup_cons_eq_ite, lookup_cons_eq_ite, lookup_cons_eq_ite, if_neg hne,
        ih (List.pairwise_cons.1 h).2]
      by_cases hc : c = b
      · simp [hc, Ne.symm hne]
      · simp [hc]

namespace OrderedMap

omit [Std.TransOrd κ] in
/-- The entries of a map are what its look-ups find. -/
theorem get?_eq_some_iff {m : OrderedMap κ ν} {k : κ} {v : ν} :
    m.get? k = some v ↔ (k, v) ∈ m.toList :=
  lookup_eq_some_iff_mem m.ascending.nodup

/-- An update changes the value at its key and nothing else. -/
theorem get?_update (m : OrderedMap κ ν) (k : κ) (f : Option ν → ν) (c : κ) :
    (m.update k f).get? c = if c = k then some (f (m.get? k)) else m.get? c :=
  lookup_updateAscending k f m.ascending c

omit [Std.TransOrd κ] in
/-- The values of a map are what its look-ups find. -/
theorem mem_values {m : OrderedMap κ ν} {v : ν} :
    v ∈ m.values ↔ ∃ k, m.get? k = some v := by
  simp [values, get?_eq_some_iff]

omit [Std.TransOrd κ] in
/-- Of the entries of a map those stay whose key passes the test. -/
theorem get?_filterKeys_eq_some {m : OrderedMap κ ν} {p : κ → Bool} {k : κ} {v : ν} :
    (m.filterKeys p).get? k = some v ↔ m.get? k = some v ∧ p k = true := by
  simp [get?_eq_some_iff, filterKeys]

end OrderedMap

end TouchAutomata
