import Containers.Proofs.MapRuns

/-! The order of the nodes. The next node of any node holds the least greater key,
so a cursor that goes from one to the next yields the values by increasing key,
whatever way down or up each step takes, and knows how many are left. -/
namespace Containers

namespace Tree
variable {α κ : Type} [Keyed α κ] [Ord κ] {tree : Tree α} {shape : Shape} {slot : Nat} {x : α} {values : List α}

/-- A slot that holds a value with a greater key than this one. -/
def Above (tree : Tree α) (x : α) (slot : Nat) (y : α) : Prop :=
  tree.value? (some slot) = some y ∧ compare (Keyed.key x) (Keyed.key y) = .lt

/-- The link to the slot that holds the least greater key, or the sentinel if no key is greater. -/
inductive Succeeds (tree : Tree α) (x : α) : Link → Prop
  | greatest (none_above : ∀ slot y, ¬ tree.Above x slot y) : Succeeds tree x none
  | least {slot : Nat} {y : α} (above : tree.Above x slot y)
      (least : ∀ other z, tree.Above x other z → other = slot ∨ compare (Keyed.key y) (Keyed.key z) = .lt) :
      Succeeds tree x (some slot)

/-- What a cursor answers. The values by increasing key are those of all slots. So many calls
from the beginning return the first ones and then nothing, what was returned and what the
cursor reports to be left make up the size, a call never counts below zero, and a copy of the
cursor yields exactly the values that were not returned yet. -/
structure Iterates (tree : Tree α) (values : List α) : Prop where
  sorted : Sorted values
  listed : values.Perm tree.values.toList
  all : tree.toList = .ok values
  calls : ∀ calls, ∃ start last, tree.cursor = .ok start ∧
    tree.advanceMany calls start = .ok ((List.range calls).map (values[·]?), last) ∧
    (values.take calls).length + last.remaining = tree.size ∧
    (last.next ≠ none → 0 < last.remaining) ∧
    tree.drain last = .ok (values.drop calls)

/-- The values on the two sides of a slot have lesser and greater keys. -/
theorem Sound.sides {front back : List Nat} (sound : tree.Sound shape) (slots : shape.slots = front ++ slot :: back)
    (filled : tree.values[slot]? = some x) {other : Nat} {y : α} (filledOther : tree.values[other]? = some y) :
    (other ∈ front → compare (Keyed.key y) (Keyed.key x) = .lt) ∧
      (other ∈ back → compare (Keyed.key x) (Keyed.key y) = .lt) := by
  have sorted := sound.sorted
  rw [slots, listing_append, listing_cons filled, Listing.sorted_middle] at sorted
  obtain ⟨-, less, greater⟩ := sorted
  exact ⟨fun inside => less y (List.mem_filterMap.mpr ⟨other, inside, filledOther⟩),
    fun inside => greater y (List.mem_filterMap.mpr ⟨other, inside, filledOther⟩)⟩

section Order
variable [Std.TransOrd κ]

/-- The greater keys are in the slots that come later in the order. -/
theorem Sound.above_iff {front back : List Nat} (sound : tree.Sound shape)
    (slots : shape.slots = front ++ slot :: back) (filled : tree.values[slot]? = some x) {other : Nat} {y : α} :
    tree.Above x other y ↔ other ∈ back ∧ tree.values[other]? = some y := by
  rw [Above, value?_eq]
  constructor
  · rintro ⟨filledOther, order⟩
    obtain ⟨lesser, -⟩ := sound.sides slots filled filledOther
    have inside := sound.mem_slots filledOther
    rw [slots, List.mem_append, List.mem_cons] at inside
    rcases inside with inFront | rfl | inBack
    · rw [Std.OrientedCmp.gt_of_lt (lesser inFront)] at order
      cases order
    · cases filled.symm.trans filledOther
      exact absurd (order.symm.trans Std.ReflCmp.compare_self) nofun
    · exact ⟨inBack, filledOther⟩
  · rintro ⟨inBack, filledOther⟩
    exact ⟨filledOther, (sound.sides slots filled filledOther).2 inBack⟩

/-- The next node of a node, and no other one, succeeds it. -/
theorem Sound.next_succeeds (sound : tree.Sound shape) (filled : tree.values[slot]? = some x) :
    ∃ link, tree.next (some slot) = .ok link ∧ ∀ other, tree.Succeeds x other ↔ other = link := by
  obtain ⟨front, back, slots⟩ := List.append_of_mem (sound.mem_slots filled)
  refine ⟨back.head?, sound.linked.next_eq slots, fun other => ?_⟩
  cases back with
  | nil =>
    constructor
    · rintro (_ | ⟨above⟩)
      · rfl
      · cases ((sound.above_iff slots filled).mp above).1
    · rintro rfl
      refine .greatest fun slot y above => ?_
      cases ((sound.above_iff slots filled).mp above).1
  | cons first rest =>
    obtain ⟨y, filledFirst⟩ := sound.linked.filled (by simp [slots] : first ∈ shape.slots)
    have above : tree.Above x first y := (sound.above_iff slots filled).mpr ⟨List.mem_cons_self, filledFirst⟩
    have behind : ∀ other z, other ∈ rest → tree.values[other]? = some z →
        compare (Keyed.key y) (Keyed.key z) = .lt := by
      intro other z inRest filledOther
      have split : shape.slots = (front ++ [slot]) ++ first :: rest := by simp [slots]
      exact (sound.sides split filledFirst filledOther).2 inRest
    constructor
    · rintro (none_above | @⟨other, z, aboveOther, least⟩)
      · exact absurd above (none_above first y)
      · rcases least first y above with rfl | lower
        · rfl
        · obtain ⟨inBack, filledOther⟩ := (sound.above_iff slots filled).mp aboveOther
          rcases List.mem_cons.mp inBack with rfl | inRest
          · rfl
          · have higher := behind other z inRest filledOther
            rw [Std.OrientedCmp.gt_of_lt higher] at lower
            cases lower
    · rintro rfl
      refine .least above fun other z aboveOther => ?_
      obtain ⟨inBack, filledOther⟩ := (sound.above_iff slots filled).mp aboveOther
      exact (List.mem_cons.mp inBack).imp_right fun inRest => behind other z inRest filledOther

end Order

/-- Calls on a cursor return the values of the list from the beginning on. -/
theorem Represents.iterates (represents : tree.Represents values) : tree.Iterates values where
  sorted := by
    obtain ⟨shape, sound, rfl⟩ := represents
    exact sound.sorted
  listed := by
    obtain ⟨shape, sound, rfl⟩ := represents
    exact sound.listing_perm
  all := represents.toList_eq
  calls calls := by
    obtain ⟨start, last, begins, taken, remaining, more, rest⟩ := represents.cursor_eq calls
    refine ⟨start, last, begins, taken, ?_, fun left => ?_, rest⟩
    · rw [List.length_take, remaining, represents.size_eq]
      omega
    · have := more left
      omega

/-- The next node of every node holds the least greater key, and a cursor yields the values by
increasing key. -/
structure InSuccession (tree : Tree α) : Prop where
  next : ∀ slot x, tree.value? (some slot) = some x →
    ∃ link, tree.next (some slot) = .ok link ∧ ∀ other, tree.Succeeds x other ↔ other = link
  iteration : ∃ values, tree.Iterates values

theorem Represents.inSuccession [Std.TransOrd κ] (represents : tree.Represents values) : tree.InSuccession where
  next slot x filled := by
    obtain ⟨shape, sound, -⟩ := represents
    exact sound.next_succeeds ((value?_eq slot).symm.trans filled)
  iteration := ⟨values, represents.iterates⟩

end Tree

section Runs
variable {α κ ν : Type} [Keyed α κ] [Ord κ] [Std.TransOrd κ] [Shown κ] [Shown ν] [Shown α] [Stored κ]
  [Stored ν] [Stored α]

/-- In every state of all runs of trees and of maps each node is followed by the one with the
least greater key, and iteration yields the values in that order. -/
theorem reachable_inSuccession (engine : Engine) (pool : Pool) (commands : List (Tree.Command α κ))
    (mapCommands : List (Map.Command κ ν)) :
    (∀ host ∈ Session.states Tree.Command.perform commands ⟨{ nodes := ⟨engine, #[]⟩ }, pool⟩,
      host.container.InSuccession) ∧
    ∀ host ∈ Session.states Map.Command.perform mapCommands ⟨{ nodes := ⟨engine, #[]⟩ }, pool⟩,
      Tree.InSuccession host.container := by
  constructor
  · intro host member
    obtain ⟨values, represents⟩ := Tree.states_represent engine pool commands host member
    exact represents.inSuccession
  · intro host member
    obtain ⟨entries, represents⟩ := Map.states_represent engine pool mapCommands host member
    exact represents.inSuccession

end Runs

/-- Keys that differ in the case of a letter only are equal in the order. -/
theorem reachable_inSuccession_caseless : Std.TransOrd Caseless ∧
    ∀ host ∈ Session.states Map.Command.perform
        [.insert ⟨"c"⟩ (1 : Int64), .insert ⟨"a"⟩ 2, .insert ⟨"b"⟩ 3, .insert ⟨"C"⟩ 4, .remove ⟨"A"⟩]
        ⟨{ nodes := ⟨.inline 3, #[]⟩ }, ⟨⟨.unlimited, 0, []⟩, ⟨.unlimited, 0, []⟩⟩⟩,
      Tree.InSuccession (κ := Caseless) host.container :=
  ⟨inferInstance, (reachable_inSuccession (α := Member Caseless) (.inline 3) _ [] _).2⟩

end Containers
