import TouchAutomata.Proofs.Ordered.Lookup
import Mathlib.Data.List.Basic

/-!
# Sorted lists and their groups

A list that is sorted by a key is put together from its groups, one for each key, in the order of
the keys (`flatMap_filter_eq`). A map is the list of its keys, each with the value that belongs to
it (`OrderedMap.toList_eq_map`).
-/

set_option autoImplicit false

namespace TouchAutomata

section Groups

variable {α κ : Type} [DecidableEq κ]

/-- Entries with the first key stand before all others. -/
theorem filter_append_filter_ne {key : α → κ} {k : κ} {l : List α}
    (first : l.Pairwise fun x y => key y = k → key x = k) :
    l.filter (fun x => key x = k) ++ l.filter (fun x => key x ≠ k) = l := by
  induction l with
  | nil => rfl
  | cons x l ih =>
    obtain ⟨hx, hl⟩ := List.pairwise_cons.1 first
    by_cases hk : key x = k
    · simpa [hk] using ih hl
    · have hothers : ∀ y ∈ l, key y ≠ k := fun y hy h => hk (hx y hy h)
      have hnone : l.filter (fun x => key x = k) = [] := by simpa using hothers
      have hall : l.filter (fun x => key x ≠ k) = l := by simpa using hothers
      rw [List.filter_cons_of_neg (by simpa using hk), List.filter_cons_of_pos (by simpa using hk),
        hnone, hall]
      rfl

variable [Ord κ] [Std.LawfulEqOrd κ]

/-- A list that is sorted by a key is put together from the groups of the keys. -/
theorem flatMap_filter_eq {key : α → κ} {ks : List κ} {l : List α} (keys : Ascending ks)
    (sorted : l.Pairwise fun x y => compare (key y) (key x) ≠ .lt) (all : ∀ x ∈ l, key x ∈ ks) :
    ks.flatMap (fun k => l.filter fun x => key x = k) = l := by
  induction ks generalizing l with
  | nil =>
    cases l with
    | nil => rfl
    | cons x l => exact absurd (all x (by simp)) List.not_mem_nil
  | cons k ks ih =>
    obtain ⟨hk, hks⟩ := List.pairwise_cons.1 keys
    have hfirst : l.Pairwise fun x y => key y = k → key x = k := by
      refine sorted.imp_of_mem fun {x y} hx _ hxy hy => ?_
      rcases List.mem_cons.1 (all x hx) with hxk | hmem
      · exact hxk
      · apply absurd _ hxy
        rw [hy]
        exact hk _ hmem
    have hrest : ks.flatMap (fun c => l.filter fun x => key x = c) =
        l.filter fun x => key x ≠ k := by
      have hkeys : ∀ x ∈ l.filter (fun x => key x ≠ k), key x ∈ ks := by
        intro x hx
        rw [List.mem_filter, decide_eq_true_eq] at hx
        exact (List.mem_cons.1 (all x hx.1)).resolve_left hx.2
      rw [← ih hks (sorted.sublist List.filter_sublist) hkeys]
      refine List.flatMap_congr fun c hc => ?_
      have hne : c ≠ k := by
        rintro rfl
        have hlt := hk c hc
        simp at hlt
      rw [List.filter_filter]
      refine List.filter_congr fun x _ => ?_
      by_cases hx : key x = c
      · simp [hx, hne]
      · simp [hx]
    rw [List.flatMap_cons, hrest]
    exact filter_append_filter_ne hfirst

end Groups

variable {κ ν : Type} [Ord κ] [Std.LawfulEqOrd κ] [DecidableEq κ]

/-- A map is known by its keys and by which value each of them has. -/
theorem OrderedMap.toList_eq_map {m : OrderedMap κ ν} {value : κ → ν}
    (h : ∀ k v, m.get? k = some v → v = value k) :
    m.toList = m.keys.map fun k => (k, value k) := by
  have hentry : ∀ e ∈ m.toList, id e = (e.1, value e.1) := by
    rintro ⟨k, v⟩ hkv
    rw [id, h k v (get?_eq_some_iff.2 hkv)]
  have hmap := List.map_congr_left hentry
  rw [List.map_id] at hmap
  rw [keys, List.map_map]
  exact hmap

end TouchAutomata
