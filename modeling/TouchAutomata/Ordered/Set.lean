/-!
# Finite sets as ascending lists

A finite set over an ordered type is kept as the list of its members in strictly ascending
order. Each set then has one representation: two sets with the same members are equal
(`OrderedSet.ext_mem`), and iterating over a set visits its members in order.
-/

set_option autoImplicit false

namespace TouchAutomata

variable {α : Type} [Ord α]

/-- Each entry comes before all later ones in the order of `compare`. -/
def Ascending (l : List α) : Prop :=
  l.Pairwise fun a b => compare a b = .lt

instance (l : List α) : Decidable (Ascending l) := by
  unfold Ascending; infer_instance

/-- The empty list is ascending. -/
theorem ascending_nil : Ascending ([] : List α) := List.Pairwise.nil

/-- Puts a value at its place in an ascending list, unless it is there already. -/
def insertAscending (x : α) : List α → List α
  | [] => [x]
  | y :: ys =>
    match compare x y with
    | .lt => x :: y :: ys
    | .eq => y :: ys
    | .gt => y :: insertAscending x ys

/-- A value that is put at its place joins the others, and none of them is lost. -/
theorem mem_insertAscending [Std.LawfulEqOrd α] {x a : α} {l : List α} :
    a ∈ insertAscending x l ↔ a = x ∨ a ∈ l := by
  induction l with
  | nil => simp [insertAscending]
  | cons y ys ih =>
    simp only [insertAscending]
    split
    · simp
    · rename_i h
      obtain rfl := Std.LawfulEqOrd.eq_of_compare h
      simp
    · simp only [List.mem_cons, ih]
      grind

/-- An ascending list stays ascending when a value is put at its place. -/
theorem Ascending.insert [Std.TransOrd α] [Std.LawfulEqOrd α] {x : α} {l : List α}
    (h : Ascending l) : Ascending (insertAscending x l) := by
  induction l with
  | nil => simp [insertAscending, Ascending]
  | cons y ys ih =>
    obtain ⟨hy, hys⟩ := List.pairwise_cons.1 h
    simp only [insertAscending]
    split
    · rename_i hxy
      refine List.pairwise_cons.2 ⟨fun a ha => ?_, h⟩
      rcases List.mem_cons.1 ha with rfl | ha
      · exact hxy
      · exact Std.TransCmp.lt_trans hxy (hy a ha)
    · exact h
    · rename_i hxy
      refine List.pairwise_cons.2 ⟨fun a ha => ?_, ih hys⟩
      rcases mem_insertAscending.1 ha with rfl | ha
      · exact Std.OrientedCmp.lt_of_gt hxy
      · exact hy a ha

/-- Two ascending lists with the same entries are the same list. -/
theorem Ascending.eq_of_mem_iff [Std.TransOrd α] [Std.LawfulEqOrd α] {l m : List α}
    (hl : Ascending l) (hm : Ascending m) (h : ∀ a, a ∈ l ↔ a ∈ m) : l = m := by
  have irrefl : ∀ a : α, compare a a ≠ .lt := fun a => by simp
  induction l generalizing m with
  | nil =>
    cases m with
    | nil => rfl
    | cons b m => simpa using h b
  | cons a l ih =>
    cases m with
    | nil => simpa using h a
    | cons b m =>
      obtain ⟨ha, hl⟩ := List.pairwise_cons.1 hl
      obtain ⟨hb, hm⟩ := List.pairwise_cons.1 hm
      have hab : a = b := by
        rcases List.mem_cons.1 ((h a).1 (List.mem_cons_self ..)) with e | ham
        · exact e
        · rcases List.mem_cons.1 ((h b).2 (List.mem_cons_self ..)) with e | hbl
          · exact e.symm
          · exact absurd (Std.TransCmp.lt_trans (ha b hbl) (hb a ham)) (irrefl a)
      subst hab
      refine congrArg (a :: ·) (ih hl (List.pairwise_cons.1 ‹Ascending (a :: m)›).2
        fun c => ⟨fun hc => ?_, fun hc => ?_⟩)
      · rcases List.mem_cons.1 ((h c).1 (List.mem_cons_of_mem _ hc)) with rfl | hcm
        · exact absurd (ha c hc) (irrefl c)
        · exact hcm
      · rcases List.mem_cons.1 ((h c).2 (List.mem_cons_of_mem _ hc)) with rfl | hcl
        · exact absurd (hb c hc) (irrefl c)
        · exact hcl

/-- A finite set, held as its members in ascending order. -/
structure OrderedSet (α : Type) [Ord α] where
  toList : List α
  ascending : Ascending toList

namespace OrderedSet

/-- Two sets with the same list of members are equal. -/
theorem ext_toList {s t : OrderedSet α} (h : s.toList = t.toList) : s = t := by
  cases s; cases t; simp_all

instance [DecidableEq α] : DecidableEq (OrderedSet α) := fun s t =>
  decidable_of_iff (s.toList = t.toList) ⟨ext_toList, fun h => h ▸ rfl⟩

instance : Membership α (OrderedSet α) := ⟨fun s a => a ∈ s.toList⟩

instance [DecidableEq α] (a : α) (s : OrderedSet α) : Decidable (a ∈ s) :=
  inferInstanceAs (Decidable (a ∈ s.toList))

/-- To be a member is to stand in the list. -/
theorem mem_def {a : α} {s : OrderedSet α} : a ∈ s ↔ a ∈ s.toList := Iff.rfl

/-- The set without members. -/
def empty : OrderedSet α := ⟨[], ascending_nil⟩

instance : EmptyCollection (OrderedSet α) := ⟨empty⟩
instance : Inhabited (OrderedSet α) := ⟨∅⟩

/-- The set without members has the empty list. -/
@[simp] theorem toList_empty : (∅ : OrderedSet α).toList = [] := rfl

/-- The set with one member. -/
def singleton (a : α) : OrderedSet α := ⟨[a], List.pairwise_singleton _ _⟩

instance : Singleton α (OrderedSet α) := ⟨singleton⟩

/-- The list of a set with one member has this member alone. -/
@[simp] theorem toList_singleton (a : α) : ({a} : OrderedSet α).toList = [a] := rfl

/-- How many members the set has. -/
def size (s : OrderedSet α) : Nat := s.toList.length

/-- Whether the set has no member. -/
def isEmpty (s : OrderedSet α) : Bool := s.toList.isEmpty

/-- The members that pass a test. -/
def filter (s : OrderedSet α) (p : α → Bool) : OrderedSet α :=
  ⟨s.toList.filter p, s.ascending.sublist List.filter_sublist⟩

/-- The members that pass a test are left. -/
@[simp] theorem mem_filter {s : OrderedSet α} {p : α → Bool} {a : α} :
    a ∈ s.filter p ↔ a ∈ s ∧ p a = true := by
  simp [filter, mem_def]

/-- Two sets with the same members are equal. -/
theorem ext_mem [Std.TransOrd α] [Std.LawfulEqOrd α] {s t : OrderedSet α}
    (h : ∀ a, a ∈ s ↔ a ∈ t) : s = t :=
  ext_toList (s.ascending.eq_of_mem_iff t.ascending h)

section Insertion

variable [Std.TransOrd α] [Std.LawfulEqOrd α]

/-- Adds one member. -/
def insert (s : OrderedSet α) (a : α) : OrderedSet α :=
  ⟨insertAscending a s.toList, s.ascending.insert⟩

/-- Adds every entry of a list. -/
def insertAll (s : OrderedSet α) (l : List α) : OrderedSet α :=
  l.foldl insert s

/-- The set of the entries of a list. -/
def ofList (l : List α) : OrderedSet α := insertAll ∅ l

/-- All members of either set. -/
def union (s t : OrderedSet α) : OrderedSet α := s.insertAll t.toList

instance : Union (OrderedSet α) := ⟨union⟩

/-- To insert a value adds it to the members. -/
@[simp] theorem mem_insert {s : OrderedSet α} {x a : α} : a ∈ s.insert x ↔ a = x ∨ a ∈ s :=
  mem_insertAscending

/-- To insert the entries of a list adds all of them to the members. -/
@[simp] theorem mem_insertAll {s : OrderedSet α} {l : List α} {a : α} :
    a ∈ s.insertAll l ↔ a ∈ l ∨ a ∈ s := by
  induction l generalizing s with
  | nil => simp [insertAll]
  | cons x l ih =>
    have : s.insertAll (x :: l) = (s.insert x).insertAll l := rfl
    rw [this, ih, mem_insert, List.mem_cons]
    grind

/-- The members of the set of a list are its entries. -/
@[simp] theorem mem_ofList {l : List α} {a : α} : a ∈ ofList l ↔ a ∈ l := by
  have : a ∉ (∅ : OrderedSet α) := List.not_mem_nil
  simp [ofList, this]

/-- The members of a union are those of both sets. -/
@[simp] theorem mem_union {s t : OrderedSet α} {a : α} : a ∈ s ∪ t ↔ a ∈ s ∨ a ∈ t := by
  show a ∈ s.insertAll t.toList ↔ _
  rw [mem_insertAll, or_comm, mem_def (s := t)]

end Insertion

end OrderedSet

end TouchAutomata
