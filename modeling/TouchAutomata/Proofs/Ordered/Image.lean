import TouchAutomata.Proofs.Ordered.Lookup
import Mathlib.Data.List.Nodup

/-!
# Images of finite sets

The image of a set under a function. A function that tells the members apart keeps the size, and
sets of such members are told apart by their images.
-/

set_option autoImplicit false

namespace TouchAutomata.OrderedSet

variable {α β : Type} [Ord α] [Std.TransOrd α] [Std.LawfulEqOrd α]
variable [Ord β] [Std.TransOrd β] [Std.LawfulEqOrd β]
variable {f : α → β} {s t : OrderedSet α}

/-- The set of the values of a function on a set. -/
def image (f : α → β) (s : OrderedSet α) : OrderedSet β := .ofList (s.toList.map f)

omit [Std.TransOrd α] [Std.LawfulEqOrd α] in
/-- The members of an image are the images of the members. -/
@[simp] theorem mem_image {b : β} : b ∈ s.image f ↔ ∃ a, a ∈ s ∧ f a = b := by
  rw [image, mem_ofList, List.mem_map]
  rfl

/-- Sets with the same image are the same, if the function keeps their members apart. -/
theorem eq_of_image_eq (apart : ∀ a ∈ s, ∀ b ∈ t, f a = f b → a = b)
    (h : s.image f = t.image f) : s = t := by
  refine ext_mem fun a => ⟨fun ha => ?_, fun ha => ?_⟩
  · have hmem : f a ∈ t.image f := h ▸ mem_image.2 ⟨a, ha, rfl⟩
    obtain ⟨b, hb, hab⟩ := mem_image.1 hmem
    rw [apart a ha b hb hab.symm]
    exact hb
  · have hmem : f a ∈ s.image f := h ▸ mem_image.2 ⟨a, ha, rfl⟩
    obtain ⟨b, hb, hab⟩ := mem_image.1 hmem
    rw [← apart b hb a ha hab]
    exact hb

omit [Std.TransOrd α] in
/-- An image has as many members as the set, if the function keeps these apart. -/
theorem size_image (apart : ∀ a ∈ s, ∀ b ∈ s, f a = f b → a = b) :
    (s.image f).size = s.size := by
  have hnodup : (s.toList.map f).Nodup :=
    s.ascending.nodup.map_on fun a ha b hb => apart a ha b hb
  have hperm : (s.image f).toList.Perm (s.toList.map f) := by
    rw [List.perm_ext_iff_of_nodup (s.image f).ascending.nodup hnodup]
    intro b
    rw [← mem_def, mem_image, List.mem_map]
    rfl
  rw [size, hperm.length_eq, List.length_map, size]

end TouchAutomata.OrderedSet
