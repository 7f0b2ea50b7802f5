import TouchAutomata.Ordered.Set

/-!
# Finite maps as association lists with ascending keys

A finite map is kept as the list of its entries, each key once and in ascending order. Equality
of maps is equality of these lists, and iterating over a map visits its keys in order. The one
way to change a map is `OrderedMap.update`, which changes the value at a key or makes one.
-/

set_option autoImplicit false

namespace TouchAutomata

variable {κ ν μ : Type} [Ord κ]

/-- Replaces the value at a key by what `f` makes of it; `f none` is the value of a new key. -/
def updateAscending (k : κ) (f : Option ν → ν) : List (κ × ν) → List (κ × ν)
  | [] => [(k, f none)]
  | (k', v) :: rest =>
    match compare k k' with
    | .lt => (k, f none) :: (k', v) :: rest
    | .eq => (k', f (some v)) :: rest
    | .gt => (k', v) :: updateAscending k f rest

/-- An update puts its key among the other ones, and changes none of them. -/
theorem keys_updateAscending (k : κ) (f : Option ν → ν) (l : List (κ × ν)) :
    (updateAscending k f l).map Prod.fst = insertAscending k (l.map Prod.fst) := by
  induction l with
  | nil => rfl
  | cons e rest ih =>
    simp only [updateAscending, List.map_cons, insertAscending]
    split <;> simp_all

/-- A finite map, held as its entries with keys in ascending order. -/
structure OrderedMap (κ ν : Type) [Ord κ] where
  toList : List (κ × ν)
  ascending : Ascending (toList.map Prod.fst)

namespace OrderedMap

/-- Two maps with the same entries are equal. -/
theorem ext_toList {m n : OrderedMap κ ν} (h : m.toList = n.toList) : m = n := by
  cases m; cases n; simp_all

instance [DecidableEq κ] [DecidableEq ν] : DecidableEq (OrderedMap κ ν) := fun m n =>
  decidable_of_iff (m.toList = n.toList) ⟨ext_toList, fun h => h ▸ rfl⟩

/-- The map without entries. -/
def empty : OrderedMap κ ν := ⟨[], ascending_nil⟩

instance : EmptyCollection (OrderedMap κ ν) := ⟨empty⟩
instance : Inhabited (OrderedMap κ ν) := ⟨∅⟩

/-- The map without entries has none. -/
@[simp] theorem toList_empty : (∅ : OrderedMap κ ν).toList = [] := rfl

/-- The keys, ascending. -/
def keys (m : OrderedMap κ ν) : List κ := m.toList.map Prod.fst

/-- The values, in the order of their keys. -/
def values (m : OrderedMap κ ν) : List ν := m.toList.map Prod.snd

/-- The value at a key. -/
def get? [DecidableEq κ] (m : OrderedMap κ ν) (k : κ) : Option ν := m.toList.lookup k

/-- Whether the map has no entry. -/
def isEmpty (m : OrderedMap κ ν) : Bool := m.toList.isEmpty

/-- The entries whose key passes a test. -/
def filterKeys (m : OrderedMap κ ν) (p : κ → Bool) : OrderedMap κ ν where
  toList := m.toList.filter fun e => p e.1
  ascending := by
    refine List.Pairwise.sublist (List.Sublist.map _ List.filter_sublist) m.ascending

/-- The map with every value replaced by its image. -/
def mapValues (m : OrderedMap κ ν) (f : ν → μ) : OrderedMap κ μ where
  toList := m.toList.map fun e => (e.1, f e.2)
  ascending := by
    have h := m.ascending
    simpa [List.map_map, Function.comp_def] using h

section Update

variable [Std.TransOrd κ] [Std.LawfulEqOrd κ]

/-- Replaces the value at a key by what `f` makes of it; `f none` is the value of a new key. -/
def update (m : OrderedMap κ ν) (k : κ) (f : Option ν → ν) : OrderedMap κ ν where
  toList := updateAscending k f m.toList
  ascending := by
    rw [keys_updateAscending]
    exact m.ascending.insert

/-- Sets the value at a key. -/
def insert (m : OrderedMap κ ν) (k : κ) (v : ν) : OrderedMap κ ν := m.update k fun _ => v

end Update

end OrderedMap

end TouchAutomata
