import Containers.Proofs.Growth
import Containers.Proofs.Slots
import Containers.Proofs.Unlinking

/-! Removal. After a node was unlinked, the last node of the arena moves into its
slot, and the nodes around the last one are told its new slot. -/
namespace Containers

/-- The element is answered and the last one stands in its place. -/
theorem Vector.swapErase_sure {α : Type} [Stored α] {host : Host (Vector α)} {position : Nat}
    (live : position < host.container.size) :
    Sure (swapErase position) host fun x after => host.container.items[position]? = some x ∧
      after = ⟨⟨host.container.engine, Slots.swapErase host.container.items position⟩, host.pool⟩ := by
  have filled := Array.getElem?_eq_getElem (live : position < host.container.items.size)
  unfold swapErase
  refine current_then ?_
  simp only [filled]
  exact ⟨rfl, rfl⟩

namespace Relink
variable {α : Type} {tree packed : Tree α} {trail : Trail} {left right : Shape} {hue : Color} {slot last : Nat}

/-- The node in the last slot has moved into another one; no link knows of it. -/
structure Packed (tree : Tree α) (slot last : Nat) (packed : Tree α) : Prop where
  size : packed.size = last
  root : packed.root = tree.root
  sentinel : packed.sentinel = tree.sentinel
  moved : packed.record (some slot) = tree.record (some last)
  stayed : ∀ other < last, other ≠ slot → packed.record (some other) = tree.record (some other)

/-- The records after the neighbours of a moved node were told its slot. -/
def adopted (records : Records) (trail : Trail) (left right : Shape) (slot : Nat) : Records :=
  ((Trail.rehang records trail (some slot)).entrust left.link (some slot)).entrust right.link (some slot)

/-- Once they were told, the records spell out the shape with the node in its new slot. -/
theorem adopted_holds {records : Records} (trailHolds : trail.Holds records (some last))
    (own : records (some slot) = ⟨left.link, right.link, trail.parent, hue⟩)
    (leftHolds : left.Holds records (some last)) (rightHolds : right.Holds records (some last))
    (distinct : (trail.plug (.node hue left slot right)).slots.Nodup) :
    (trail.plug (.node hue left slot right)).Holds (adopted records trail left right slot) none := by
  obtain ⟨inside, trailDistinct, apart⟩ := Trail.nodup_plug.mp distinct
  obtain ⟨notLeft, notRight, leftDistinct, rightDistinct, leftRight⟩ := Shape.nodup_node.mp inside
  have leftTrail : ∀ other ∈ left.slots, other ∉ trail.slots := fun other member =>
    apart other (by simp [Shape.slots, member])
  have rightTrail : ∀ other ∈ right.slots, other ∉ trail.slots := fun other member =>
    apart other (by simp [Shape.slots, member])
  have slotTrail : slot ∉ trail.slots := apart slot (by simp [Shape.slots])
  rw [Trail.holds_plug]
  refine ⟨?_, ?_, ?_, ?_⟩
  · have trailLeft : ∀ other ∈ trail.slots, other ∉ left.slots := fun other outside member =>
      leftTrail other member outside
    have trailRight : ∀ other ∈ trail.slots, other ∉ right.slots := fun other outside member =>
      rightTrail other member outside
    exact ((trailHolds.rehang trailDistinct (some slot)).entrust_other trailLeft _).entrust_other trailRight _
  · have slotOutside : ∀ other ∈ trail.slots, some slot ≠ some other := by
      rintro other outside ⟨rfl⟩
      exact slotTrail outside
    rw [adopted, Records.entrust_other (Shape.link_ne notRight), Records.entrust_other (Shape.link_ne notLeft),
      Trail.rehang_other slotOutside, own]
  · exact ((leftHolds.rehang leftTrail (some slot)).entrust leftDistinct (some slot)).entrust_other leftRight _
  · have rightLeft : ∀ other ∈ right.slots, other ∉ left.slots := fun other inRight inLeft =>
      leftRight other inLeft inRight
    exact ((rightHolds.rehang rightTrail (some slot)).entrust_other rightLeft _).entrust rightDistinct _

/-- The slots of a shape stay apart when a node moves into a slot outside it. -/
theorem nodup_moved (distinct : (trail.plug (.node hue left last right)).slots.Nodup)
    (absent : slot ∉ (trail.plug (.node hue left last right)).slots) :
    (trail.plug (.node hue left slot right)).slots.Nodup := by
  obtain ⟨inside, trailDistinct, apart⟩ := Trail.nodup_plug.mp distinct
  obtain ⟨-, -, leftDistinct, rightDistinct, leftRight⟩ := Shape.nodup_node.mp inside
  simp only [Trail.mem_slots_plug, Shape.slots, List.mem_append, List.mem_cons, not_or] at absent apart
  obtain ⟨⟨slotLeft, -, slotRight⟩, slotTrail⟩ := absent
  refine Trail.nodup_plug.mpr ⟨?_, trailDistinct, ?_⟩
  · exact Shape.nodup_node.mpr ⟨slotLeft, slotRight, leftDistinct, rightDistinct, leftRight⟩
  · intro other member
    simp only [Shape.slots, List.mem_append, List.mem_cons] at member
    rcases member with inLeft | rfl | inRight
    · exact apart other (.inl inLeft)
    · exact slotTrail
    · exact apart other (.inr (.inr inRight))

/-- Beside the node that moved, every node is in its slot with its record. -/
theorem Packed.beside (packing : Packed tree slot last packed)
    (linked : tree.Linked (trail.plug (.node hue left last right))) (isLast : tree.size = last + 1)
    (absent : slot ∉ (trail.plug (.node hue left last right)).slots) {other : Nat}
    (member : other ∈ left.slots ∨ other ∈ right.slots ∨ other ∈ trail.slots) :
    other < packed.size ∧ packed.record (some other) = tree.record (some other) := by
  obtain ⟨inside, -, apart⟩ := linked.apart
  obtain ⟨lastLeft, lastRight, -⟩ := Shape.nodup_node.mp inside
  have notLast : other ≠ last := by
    rintro rfl
    rcases member with inLeft | inRight | inTrail
    · exact lastLeft inLeft
    · exact lastRight inRight
    · exact apart other (by simp [Shape.slots]) inTrail
  have whole : other ∈ (trail.plug (.node hue left last right)).slots := by
    rcases member with inLeft | inRight | inTrail
    · simp [Shape.slots, inLeft]
    · simp [Shape.slots, inRight]
    · simp [inTrail]
  have live := linked.live other whole
  have lower : other < last := by omega
  exact ⟨packing.size ▸ lower, packing.stayed other lower fun same => absent (same ▸ whole)⟩

/-- The neighbours of the node that moved are told its slot. -/
theorem adopt_still (linked : tree.Linked (trail.plug (.node hue left last right)))
    (packing : Packed tree slot last packed) (isLast : tree.size = last + 1) (lower : slot < last)
    (absent : slot ∉ (trail.plug (.node hue left last right)).slots) :
    Still (adopt slot last) packed fun _ after =>
      after.Linked (trail.plug (.node hue left slot right)) ∧ packed.Kept after := by
  obtain ⟨trailHolds, own, leftHolds, rightHolds⟩ := linked.parts
  have lastTrail : last ∉ trail.slots := linked.apart.2.2 last (by simp [Shape.slots])
  have distinct := nodup_moved linked.distinct absent
  have beside : ∀ other, (other ∈ left.slots ∨ other ∈ right.slots ∨ other ∈ trail.slots) →
      other < packed.size ∧ packed.record (some other) = tree.record (some other) :=
    fun other member => packing.beside linked isLast absent member
  have ownNow : packed.record (some slot) = ⟨left.link, right.link, trail.parent, hue⟩ := packing.moved.trans own
  have trailNow : trail.Holds packed.record (some last) :=
    trailHolds.congr fun other member => (beside other (.inr (.inr member))).2
  have leftNow : left.Holds packed.record (some last) :=
    leftHolds.congr fun other member => (beside other (.inl member)).2
  have rightNow : right.Holds packed.record (some last) :=
    rightHolds.congr fun other member => (beside other (.inr (.inl member))).2
  have liveLeft : packed.Live left.link := fun other named =>
    (beside other (.inl (Shape.mem_slots_of_link named))).1
  have liveRight : packed.Live right.link := fun other named =>
    (beside other (.inr (.inl (Shape.mem_slots_of_link named)))).1
  have liveParent : packed.Live trail.parent := fun other named =>
    (beside other (.inr (.inr (Trail.mem_slots_of_parent named)))).1
  have liveSlot : packed.Live (some slot) := by
    rintro _ ⟨rfl⟩
    exact packing.size ▸ lower
  unfold adopt
  refine look_then (Tree.links_eq liveSlot) ?_
  rw [ownNow]
  refine (redirect_still trailNow lastTrail liveParent (some slot)).andThen fun _ first firstDone => ?_
  refine (entrust_still (firstDone.live liveLeft) (some slot)).andThen fun _ second secondDone => ?_
  refine (entrust_still (secondDone.live (firstDone.live liveRight)) (some slot)).weaken ?_
  rintro _ after _ ⟨rfl, thirdDone⟩
  have record : after.record = adopted packed.record trail left right slot := by
    rw [thirdDone.record, secondDone.record, firstDone.record, adopted]
  have kept : packed.Kept after := by
    refine ⟨?_, ?_, ?_⟩
    · rw [thirdDone.engine, secondDone.engine, firstDone.engine]
    · rw [thirdDone.values, secondDone.values, firstDone.values]
    · have atNone := congrFun record none
      rwa [adopted, Records.entrust_none, Records.entrust_none, Trail.rehang_none] at atNone
  refine ⟨rfl, ⟨?_, ?_, distinct, ?_⟩, kept⟩
  · rw [thirdDone.root, secondDone.root, firstDone.root, packing.root, linked.root]
    exact rehangRoot_plug trail _ (.node hue left slot right)
  · rw [record]
    exact adopted_holds trailNow ownNow leftNow rightNow distinct
  · intro other member
    rw [kept.size]
    simp only [Trail.mem_slots_plug, Shape.slots, List.mem_append, List.mem_cons] at member
    rcases member with (inLeft | rfl | inRight) | inTrail
    · exact (beside other (.inl inLeft)).1
    · exact liveSlot other rfl
    · exact (beside other (.inr (.inl inRight))).1
    · exact (beside other (.inr (.inr inTrail))).1

end Relink

namespace Tree
variable {α κ : Type} {tree after : Tree α} {whole shape : Shape} {slot last : Nat}

/-- What is left when the node in `slot`, which belongs to the shape no longer,
was dropped and the last node filled the slot. -/
structure Released (tree : Tree α) (slot last : Nat) (whole : Shape) (after : Tree α) (shape : Shape) :
    Prop where
  linked : after.Linked shape
  size : after.size = last
  engine : after.nodes.engine = tree.nodes.engine
  sentinel : after.sentinel = tree.sentinel
  black : shape.color = .black
  balanced : ∃ rank, shape.Balanced rank
  full : ∀ other < last, other ∈ shape.slots
  values : ∀ other < last, after.values[other]? =
    if other = slot then tree.values[last]? else tree.values[other]?
  listing : after.listing shape.slots = tree.listing whole.slots

/-- The tree after the last node filled a slot and before its neighbours know. -/
def swapped (tree : Tree α) (slot : Nat) : Tree α :=
  { tree with nodes := ⟨tree.nodes.engine, Slots.swapErase tree.nodes.items slot⟩ }

theorem items_swapped (isLast : tree.size = last + 1) (live : slot < tree.size) {other : Nat}
    (within : other < last) : (tree.swapped slot).nodes.items[other]? =
      if other = slot then tree.nodes.items[last]? else tree.nodes.items[other]? := by
  have size : tree.nodes.items.size = last + 1 := isLast
  have bound : slot < tree.nodes.items.size := live
  simp only [swapped]
  rw [Slots.getElem?_swapErase bound (by omega), size, Nat.add_sub_cancel]

theorem values_swapped (isLast : tree.size = last + 1) (live : slot < tree.size) {other : Nat}
    (within : other < last) : (tree.swapped slot).values[other]? =
      if other = slot then tree.values[last]? else tree.values[other]? := by
  simp only [values_eq, items_swapped isLast live within]
  split <;> rfl

theorem packed_swapped (isLast : tree.size = last + 1) (lower : slot < last) :
    Relink.Packed tree slot last (tree.swapped slot) where
  size := by
    simp only [Tree.size, Storage.size] at isLast ⊢
    rw [swapped, Slots.size_swapErase, isLast, Nat.add_sub_cancel]
  root := rfl
  sentinel := rfl
  moved := by
    rw [record, items_swapped isLast (by omega) lower, if_pos rfl]
    rfl
  stayed other within different := by
    rw [record, items_swapped isLast (by omega) within, if_neg different]
    rfl

/-- A dropped node that was the last one leaves the others alone. -/
theorem released_last (linked : tree.Linked whole) (isLast : tree.size = last + 1) (black : whole.color = .black)
    (balanced : ∃ rank, whole.Balanced rank)
    (slots : ∀ other, other ∈ whole.slots ↔ other < tree.size ∧ other ≠ last) :
    Released tree last last whole (tree.swapped last) whole := by
  have within : ∀ other ∈ whole.slots, other < last ∧ other ≠ last := by
    intro other member
    have := (slots other).mp member
    omega
  have size : (tree.swapped last).size = last := by
    simp only [Tree.size, Storage.size] at isLast ⊢
    rw [swapped, Slots.size_swapErase, isLast, Nat.add_sub_cancel]
  have live : last < tree.size := by omega
  refine ⟨⟨linked.root, linked.holds.congr fun other member => ?_, linked.distinct, fun other member => ?_⟩, size,
    rfl, rfl, black, balanced, fun other lower => (slots other).mpr (by omega),
    fun other lower => values_swapped isLast live lower, listing_congr fun other member => ?_⟩
  · rw [record, items_swapped isLast live (within other member).1, if_neg (within other member).2]
    rfl
  · exact size.symm ▸ (within other member).1
  · rw [values_swapped isLast live (within other member).1, if_neg (within other member).2]

/-- Otherwise the last node stands in its place, in the order as in the arena. -/
theorem released_moved {trail : Trail} {hue : Color} {left right : Shape}
    (linked : tree.Linked (trail.plug (.node hue left last right))) (isLast : tree.size = last + 1)
    (lower : slot < last) (black : (trail.plug (.node hue left last right)).color = .black)
    (balanced : ∃ rank, (trail.plug (.node hue left last right)).Balanced rank)
    (slots : ∀ other, other ∈ (trail.plug (.node hue left last right)).slots ↔ other < tree.size ∧ other ≠ slot)
    (linked' : after.Linked (trail.plug (.node hue left slot right))) (kept : (tree.swapped slot).Kept after) :
    Released tree slot last (trail.plug (.node hue left last right)) after
      (trail.plug (.node hue left slot right)) := by
  have live : slot < tree.size := by omega
  have packing := packed_swapped isLast lower
  have valuesNow : ∀ other < last, after.values[other]? =
      if other = slot then tree.values[last]? else tree.values[other]? := fun other within => by
    rw [kept.values, values_swapped isLast live within]
  obtain ⟨total, balanced⟩ := balanced
  obtain ⟨rank, around, inner, admits⟩ := Trail.Around.of_plug balanced black
  have renamed : (Shape.node hue left slot right).Balanced rank := by cases hue <;> exact inner
  obtain ⟨total', balanced', black'⟩ := Trail.balanced_plug around renamed admits
  have distinct := linked.distinct
  obtain ⟨x, filled⟩ := linked.filled ((slots last).mpr (by omega))
  have filledNow : after.values[slot]? = some x := by rw [valuesNow slot lower, if_pos rfl, filled]
  have order : ∀ own, (trail.plug (.node hue left own right)).slots =
      (trail.before ++ left.slots) ++ own :: (right.slots ++ trail.after) := fun own => by
    simp [Trail.slots_plug, Shape.slots]
  rw [order, List.perm_middle.nodup_iff, List.nodup_cons] at distinct
  have unmoved : ∀ part : List Nat, (∀ other ∈ part, other ∈ (trail.before ++ left.slots) ++
      (right.slots ++ trail.after)) → after.listing part = tree.listing part := by
    intro part inside
    refine listing_congr fun other member => ?_
    have there : other ∈ (trail.plug (.node hue left last right)).slots := by
      rw [order, List.perm_middle.mem_iff]
      exact List.mem_cons_of_mem _ (inside other member)
    have notLast : other ≠ last := fun same => distinct.1 (same ▸ inside other member)
    have := (slots other).mp there
    rw [valuesNow other (by omega), if_neg this.2]
  refine ⟨linked', ?_, kept.engine, kept.sentinel, black', ⟨total', balanced'⟩, fun other within => ?_, valuesNow,
    ?_⟩
  · rw [kept.size, packing.size]
  · rw [order, List.perm_middle.mem_iff, List.mem_cons]
    by_cases same : other = slot
    · exact .inl same
    · have there := (slots other).mpr ⟨by omega, same⟩
      rw [order, List.perm_middle.mem_iff, List.mem_cons] at there
      exact .inr (there.resolve_left (Nat.ne_of_lt within))
  · rw [order, order, listing_append, listing_cons filledNow, unmoved _ fun _ => List.mem_append_left _,
      unmoved _ fun _ => List.mem_append_right _, ← listing_cons filled, ← listing_append]

/-- Dropping a node that no link leads to, whatever slot it is in. -/
theorem release_sure [Stored α] (host : Host (Tree α)) (linked : host.container.Linked whole)
    (isLast : host.container.size = last + 1) (live : slot < host.container.size) (black : whole.color = .black)
    (balanced : ∃ rank, whole.Balanced rank)
    (slots : ∀ other, other ∈ whole.slots ↔ other < host.container.size ∧ other ≠ slot) :
    Sure (release slot) host fun value after => host.container.values[slot]? = some value ∧
      after.pool = host.pool ∧
      ∃ shape, Released host.container slot last whole after.container shape := by
  unfold release
  refine current_then ?_
  rw [isLast, Nat.add_sub_cancel, leads_bind, onNodes, leads_part]
  refine (Vector.swapErase_sure live).weaken ?_
  rintro node _ ⟨found, rfl⟩
  have filled : host.container.values[slot]? = some node.value := by
    rw [values_eq]
    exact congrArg (Option.map Node.value) found
  split
  · rename_i moves
    have lower : slot < last := by omega
    have inside : last ∈ whole.slots := (slots last).mpr (by omega)
    obtain ⟨trail, hue, left, right, rfl⟩ := Trail.exists_plug inside
    have absent : slot ∉ (trail.plug (.node hue left last right)).slots := fun member =>
      ((slots slot).mp member).2 rfl
    apply alone_then (Relink.adopt_still linked (packed_swapped isLast lower) isLast lower absent).runs
    rintro _ after ⟨linked', kept⟩
    exact ⟨filled, rfl, _, released_moved linked isLast lower black balanced slots linked' kept⟩
  · rename_i stays
    obtain rfl : slot = last := not_not.mp stays
    exact ⟨filled, rfl, whole, released_last linked isLast black balanced slots⟩

/-- What taking out the value in a slot leaves. The departing slot is the one
that the last node fills, and what it held is in the slot of the value. -/
structure Erased [Keyed α κ] [Ord κ] (host : Host (Tree α)) (shape : Shape) (slot : Nat) (value : α)
    (after : Host (Tree α)) : Prop where
  pool : after.pool = host.pool
  engine : after.container.nodes.engine = host.container.nodes.engine
  size : host.container.size = after.container.size + 1
  filled : host.container.values[slot]? = some value
  order : ∃ shape' front back, after.container.Sound shape' ∧
    host.container.listing shape.slots = front ++ value :: back ∧
    after.container.listing shape'.slots = front ++ back
  values : ∃ trail hue left right, shape = Trail.plug trail (.node hue left slot right) ∧
    ∀ other < after.container.size, ∀ source,
      source = (if other = left.departing slot right then after.container.size else other) →
      after.container.values[other]? =
        if source = slot then host.container.values[left.departing slot right]?
        else host.container.values[source]?

theorem eraseNode_sure [Keyed α κ] [Ord κ] [Stored α] {host : Host (Tree α)} (sound : host.container.Sound shape)
    (live : slot < host.container.size) :
    Sure (eraseNode (some slot)) host fun value after => Erased host shape slot value after := by
  obtain ⟨trail, hue, left, right, rfl⟩ := Trail.exists_plug (sound.full slot live)
  obtain ⟨total, balanced⟩ := sound.balanced
  unfold eraseNode
  refine current_then ?_
  rw [leads_bind, leads_require, if_pos live]
  refine alone_then (Relink.unlink_safe sound.linked sound.sentinel balanced sound.black).runs ?_
  rintro gone tree ⟨-, isGone, whole, unlinked⟩
  obtain ⟨last, isLast⟩ : ∃ last, tree.size = last + 1 := ⟨tree.size - 1, by have := unlinked.size; omega⟩
  have slots : ∀ other, other ∈ whole.slots ↔ other < tree.size ∧ other ≠ gone := by
    intro other
    have distinct := unlinked.slots.nodup_iff.mp sound.linked.distinct
    have members : other < tree.size ↔ other = gone ∨ other ∈ whole.slots := by
      rw [unlinked.size, ← List.mem_cons, ← unlinked.slots.mem_iff]
      exact ⟨sound.full other, sound.linked.live other⟩
    rw [List.nodup_cons] at distinct
    rw [members]
    constructor
    · intro inside
      exact ⟨.inr inside, fun same => distinct.1 (same ▸ inside)⟩
    · rintro ⟨isGone | inside, different⟩
      · exact absurd isGone different
      · exact inside
  have goneLive : gone < tree.size := by
    rw [unlinked.size]
    exact sound.linked.live gone (unlinked.slots.mem_iff.mpr List.mem_cons_self)
  refine (release_sure ⟨tree, host.pool⟩ unlinked.linked isLast goneLive unlinked.black unlinked.balanced
    slots).weaken ?_
  rintro value after ⟨found, pool, shape', released⟩
  have filled : host.container.values[slot]? = some value := by
    have := unlinked.values gone
    rw [if_pos rfl] at this
    exact this.symm.trans found
  obtain ⟨front, x, back, filledX, listing, listing'⟩ := unlinked.listing
  obtain rfl : value = x := Option.some.inj (filled.symm.trans filledX)
  have listingNow : after.container.listing shape'.slots = front ++ back := released.listing.trans listing'
  have sorted : Sorted (front ++ value :: back) := listing ▸ sound.sorted
  refine ⟨pool, released.engine.trans unlinked.engine, ?_, filled, ⟨shape', front, back, ?_, listing, listingNow⟩,
    trail, hue, left, right, rfl, ?_⟩
  · rw [← unlinked.size, isLast, released.size]
  · refine ⟨released.linked, fun other within => released.full other (released.size ▸ within),
      released.sentinel.trans unlinked.sentinel, released.black, released.balanced, ?_⟩
    rw [listingNow]
    exact (Listing.sorted_middle.mp sorted).1
  · rw [← isGone, released.size]
    rintro other within source rfl
    rw [released.values other within]
    by_cases atGone : other = gone
    · have lastNotGone : last ≠ gone := by omega
      simp only [atGone, ↓reduceIte]
      rw [unlinked.values, if_neg lastNotGone]
    · simp only [atGone, ↓reduceIte]
      rw [unlinked.values, if_neg atGone]

end Tree

end Containers
