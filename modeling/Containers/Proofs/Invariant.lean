import Containers.Proofs.Search

/-! The invariant of a tree between two operations: its links spell out a shape
of all its slots, the shape is a red-black tree, and the values along it are
sorted by key. The list of these values is what the tree stands for. -/
namespace Containers.Tree
variable {α κ : Type} {tree : Tree α} {shape : Shape}

/-- A tree in order, as it is between two operations. -/
structure Sound [Keyed α κ] [Ord κ] (tree : Tree α) (shape : Shape) : Prop where
  linked : tree.Linked shape
  full : ∀ slot < tree.size, slot ∈ shape.slots
  sentinel : tree.sentinel = .sentinel
  black : shape.color = .black
  balanced : ∃ rank, shape.Balanced rank
  sorted : Sorted (tree.listing shape.slots)

/-- The values of a tree in order, sorted by key. -/
def Represents [Keyed α κ] [Ord κ] (tree : Tree α) (values : List α) : Prop :=
  ∃ shape, tree.Sound shape ∧ tree.listing shape.slots = values

theorem Linked.listing_drop {slots : List Nat} (linked : tree.Linked shape)
    (inside : ∀ slot ∈ slots, slot ∈ shape.slots) (n : Nat) :
    tree.listing (slots.drop n) = (tree.listing slots).drop n := by
  induction slots generalizing n with
  | nil => simp [listing]
  | cons slot rest ih =>
    cases n with
    | zero => rfl
    | succ n =>
      obtain ⟨x, filled⟩ := linked.filled (inside slot (by simp))
      rw [listing_cons filled, List.drop_succ_cons, List.drop_succ_cons,
        ih fun other member => inside other (by simp [member])]

theorem Linked.length_listing (linked : tree.Linked shape) :
    (tree.listing shape.slots).length = shape.slots.length := by
  have all : ∀ slots : List Nat, (∀ slot ∈ slots, slot ∈ shape.slots) →
      (tree.listing slots).length = slots.length := by
    intro slots inside
    induction slots with
    | nil => rfl
    | cons slot rest ih =>
      obtain ⟨x, filled⟩ := linked.filled (inside slot (by simp))
      rw [listing_cons filled, List.length_cons, List.length_cons,
        ih fun other member => inside other (by simp [member])]
  exact all shape.slots fun _ member => member

/-- The ends of the order hold the ends of the list. -/
theorem Linked.value_head (linked : tree.Linked shape) :
    tree.value? shape.slots.head? = (tree.listing shape.slots).head? := by
  cases slots : shape.slots with
  | nil => rfl
  | cons slot rest =>
    have inside : slot ∈ shape.slots := by simp [slots]
    obtain ⟨x, filled⟩ := linked.filled inside
    rw [listing_cons filled, List.head?_cons, List.head?_cons, value?_eq, filled]

theorem Linked.value_getLast (linked : tree.Linked shape) :
    tree.value? shape.slots.getLast? = (tree.listing shape.slots).getLast? := by
  rcases List.eq_nil_or_concat shape.slots with slots | ⟨front, slot, slots⟩
  · rw [slots]
    rfl
  · have inside : slot ∈ shape.slots := by simp [slots]
    obtain ⟨x, filled⟩ := linked.filled inside
    rw [slots, List.concat_eq_append, listing_append, listing_cons filled, List.getLast?_concat, value?_eq, filled]
    exact List.getLast?_concat.symm

/-- Every value stands in one of the slots. -/
theorem filterMap_values (tree : Tree α) : (List.range tree.size).filterMap (tree.values[·]?) = tree.values.toList := by
  have listed : ∀ list : List α, (List.range list.length).filterMap (list[·]?) = list := by
    intro list
    induction list using List.reverseRecOn with
    | nil => rfl
    | append_singleton front x ih =>
      have inFront : ∀ slot ∈ List.range front.length, (front ++ [x])[slot]? = front[slot]? := fun slot within =>
        List.getElem?_append_left (List.mem_range.mp within)
      rw [List.length_append, List.length_singleton, List.range_succ, List.filterMap_append,
        List.filterMap_congr inFront, ih]
      simp
  simpa [size_values] using listed tree.values.toList

variable [Keyed α κ] [Ord κ] {slot : Nat} {x : α}

/-- The shape has every slot once. -/
theorem Sound.perm (sound : tree.Sound shape) : shape.slots.Perm (List.range tree.size) :=
  (List.perm_ext_iff_of_nodup sound.linked.distinct List.nodup_range).mpr fun slot =>
    ⟨fun inside => List.mem_range.mpr (sound.linked.live slot inside),
      fun within => sound.full slot (List.mem_range.mp within)⟩

theorem Sound.size_eq (sound : tree.Sound shape) : tree.size = (tree.listing shape.slots).length := by
  rw [sound.linked.length_listing, sound.perm.length_eq, List.length_range]

theorem Sound.mem_slots (sound : tree.Sound shape) (filled : tree.values[slot]? = some x) : slot ∈ shape.slots := by
  apply sound.full
  rw [← size_values]
  exact (Array.getElem?_eq_some_iff.mp filled).1

/-- The shape lists the values of all slots. -/
theorem Sound.listing_perm (sound : tree.Sound shape) : (tree.listing shape.slots).Perm tree.values.toList := by
  rw [← filterMap_values]
  exact sound.perm.filterMap _

theorem Sound.mem_listing (sound : tree.Sound shape) : x ∈ tree.listing shape.slots ↔ x ∈ tree.values := by
  rw [sound.listing_perm.mem_iff, Array.mem_toList_iff]

/-- A tree is empty when it has no node. -/
theorem Sound.isEmpty_iff (sound : tree.Sound shape) : tree.isEmpty = true ↔ tree.size = 0 := by
  have empty : tree.isEmpty = true ↔ shape = .leaf := by
    rw [isEmpty, sound.linked.root, decide_eq_true_iff, Shape.link_eq_none]
  rw [empty]
  constructor
  · rintro rfl
    by_contra nonzero
    exact absurd (sound.full 0 (Nat.pos_of_ne_zero nonzero)) nofun
  · intro zero
    cases shape with
    | leaf => rfl
    | node hue left slot right =>
      have := sound.linked.live slot (by simp [Shape.slots])
      omega

/-- The sentinel's record has no part in the shape. -/
theorem Linked.resentinel (linked : tree.Linked shape) (links : Links) :
    ({ tree with sentinel := links } : Tree α).Linked shape := by
  obtain ⟨root, holds, distinct, live⟩ := linked
  exact ⟨root, holds.congr fun _ _ => rfl, distinct, live⟩

/-- A tree without a node is in order. -/
theorem sound_leaf (root : tree.root = none) (none : tree.size = 0) (sentinel : tree.sentinel = .sentinel) :
    tree.Sound .leaf where
  linked := ⟨root, trivial, List.nodup_nil, nofun⟩
  full slot within := by omega
  sentinel := sentinel
  black := rfl
  balanced := ⟨0, rfl⟩
  sorted := List.Pairwise.nil

theorem represents_nil (engine : Engine) :
    ({ nodes := ⟨engine, #[]⟩ } : Tree α).Represents [] :=
  ⟨.leaf, sound_leaf rfl rfl rfl, rfl⟩

end Containers.Tree
