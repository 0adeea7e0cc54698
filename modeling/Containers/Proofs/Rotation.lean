import Containers.Proofs.Relinking

/-! Rotations. Lifting a child into its parent's place rewrites the links of at
most four nodes; everything that hangs below or above them is kept, and so are
the order of the slots, the colours and the values. -/
namespace Containers

namespace Tree
variable {α : Type} {tree : Tree α} {shape : Shape} {trail : Trail} {hole : Shape}
  {side : Side} {hue : Color} {slot : Nat} {sibling : Shape} {above : Trail}

/-- The links of a tree, from its root on, spell out a shape of existing slots,
each of which occurs once. -/
structure Linked (tree : Tree α) (shape : Shape) : Prop where
  root : tree.root = shape.link
  holds : shape.Holds tree.record none
  distinct : shape.slots.Nodup
  live : ∀ slot ∈ shape.slots, slot < tree.size

theorem Linked.parts (linked : tree.Linked (trail.plug hole)) :
    trail.Holds tree.record hole.link ∧ hole.Holds tree.record trail.parent :=
  Trail.holds_plug.mp linked.holds

/-- A place as part of the place above it. -/
theorem Linked.up (linked : tree.Linked ((Trail.under side hue slot sibling above).plug hole)) :
    tree.Linked (above.plug (.join side hue slot hole sibling)) := linked

/-- A place as what hangs on one side of a node. -/
theorem Linked.down (linked : tree.Linked (above.plug (.join side hue slot hole sibling))) :
    tree.Linked ((Trail.under side hue slot sibling above).plug hole) := linked

theorem Linked.apart (linked : tree.Linked (trail.plug hole)) :
    hole.slots.Nodup ∧ trail.slots.Nodup ∧ ∀ slot ∈ hole.slots, slot ∉ trail.slots :=
  Trail.nodup_plug.mp linked.distinct

/-- A shape has no more nodes than the arena has slots. -/
theorem Linked.length_le (linked : tree.Linked shape) : shape.slots.length ≤ tree.size := by
  have within : shape.slots ⊆ List.range tree.size := fun slot member =>
    List.mem_range.mpr (linked.live slot member)
  simpa using linked.distinct.length_le_of_subset within

/-- No trail is longer than the limit on the steps of a walk. -/
theorem Linked.trail_lt (linked : tree.Linked (trail.plug hole)) : trail.length < tree.stepLimit := by
  have all := linked.length_le
  rw [(Trail.slots_plug_perm trail hole).length_eq, List.length_append] at all
  have := trail.length_le_slots
  simp only [stepLimit]
  omega

theorem Linked.live_link (linked : tree.Linked (trail.plug hole)) : tree.Live hole.link :=
  fun slot named => linked.live slot (by simp [Shape.mem_slots_of_link named])

theorem Linked.live_parent (linked : tree.Linked (trail.plug hole)) : tree.Live trail.parent := by
  cases trail with
  | top => exact fun slot impossible => nomatch impossible
  | under side hue slot sibling above =>
    rintro _ ⟨rfl⟩
    exact linked.live slot (by simp [Trail.slots])

/-- The node above a place has what hangs there as its child on that side. -/
theorem Linked.child_eq (linked : tree.Linked ((Trail.under side hue slot sibling above).plug hole)) :
    tree.child side (some slot) = .ok hole.link ∧
      tree.child side.opposite (some slot) = .ok sibling.link := by
  have own := linked.parts.1.1
  have live : tree.Live (some slot) := linked.live_parent
  rw [Tree.child_eq live, Tree.child_eq live, own]
  simp

theorem Linked.parent_eq (linked : tree.Linked (trail.plug hole)) (named : hole.link = some slot) :
    tree.parent (some slot) = .ok trail.parent := by
  rw [Tree.parent_eq (named ▸ linked.live_link), linked.parts.2.parent_eq named]

theorem Linked.parent_color_eq (linked : tree.Linked (trail.plug hole))
    (black : tree.sentinel.color = .black) : tree.color trail.parent = .ok trail.color := by
  cases trail with
  | top => exact congrArg Except.ok black
  | under side hue slot sibling above =>
    have own := linked.parts.1.1
    rw [Tree.color_eq linked.live_parent, Trail.parent, own, Links.color_join, Trail.color]

theorem Linked.color_eq (linked : tree.Linked (trail.plug hole))
    (black : tree.sentinel.color = .black) : tree.color hole.link = .ok hole.color := by
  rw [Tree.color_eq linked.live_link, linked.parts.2.color_eq black]

end Tree

namespace Relink
variable {α : Type} {tree : Tree α} {trail : Trail} {side : Side} {hue dye : Color}
  {slot lifted : Nat} {near inner far : Shape} {new : Link}

/-- The root after another subtree was hung at a place. -/
def rehangRoot (root : Link) : Trail → Link → Link
  | .top, new => new
  | .under .., _ => root

theorem rehangRoot_plug (trail : Trail) (old new : Shape) :
    rehangRoot (trail.plug old).link trail new.link = (trail.plug new).link := by
  cases trail with
  | top => rfl
  | under side hue slot sibling above =>
    exact Trail.link_plug_congr above (Shape.link_join.trans Shape.link_join.symm)

/-- Another subtree stands in the place of the old one once the records spell it
out and the node above, or the root, names it. -/
theorem replanted {after : Tree α} {old new : Shape} {records : Records}
    (linked : tree.Linked (trail.plug old)) (above : trail.Holds records old.link)
    (below : new.Holds records trail.parent)
    (record : ∀ slot, after.record (some slot) = Trail.rehang records trail new.link (some slot))
    (root : after.root = rehangRoot tree.root trail new.link) (distinct : (trail.plug new).slots.Nodup)
    (live : ∀ slot ∈ (trail.plug new).slots, slot < after.size) : after.Linked (trail.plug new) := by
  obtain ⟨-, trailDistinct, apart⟩ := Trail.nodup_plug.mp distinct
  refine ⟨?_, ?_, distinct, live⟩
  · rw [root, linked.root, rehangRoot_plug]
  · rw [Trail.holds_plug]
    constructor
    · exact (above.rehang trailDistinct new.link).congr fun slot _ => record slot
    · exact (below.rehang apart new.link).congr fun slot _ => record slot

theorem redirect_still (holds : trail.Holds tree.record (some slot)) (apart : slot ∉ trail.slots)
    (live : tree.Live trail.parent) (new : Link) :
    Still (redirect trail.parent (some slot) new) tree fun _ after =>
      Changed tree (Trail.rehang tree.record trail new) (rehangRoot tree.root trail new) after := by
  cases trail with
  | top => exact setRoot_still
  | under side hue above sibling rest =>
    simp only [redirect, Trail.parent, reduceCtorEq, ↓reduceIte]
    refine look_then (Tree.child_eq live .left) ?_
    obtain ⟨own, -⟩ := holds
    cases side with
    | left =>
      rw [if_pos (by simp [Trail.parent, own, Links.join, Links.child])]
      exact setChild_still live (Option.some_ne_none _) .left new
    | right =>
      have different : sibling.link ≠ some slot :=
        fun named => apart (by simp [Trail.slots, Shape.mem_slots_of_link named])
      rw [if_neg (by simpa [Trail.parent, own, Links.join, Links.child] using different)]
      exact setChild_still live (Option.some_ne_none _) .right new

theorem Changed.live {records : Records} {root link : Link} {after : Tree α}
    (changed : Changed tree records root after) (live : tree.Live link) : after.Live link := by
  intro slot named
  rw [← Tree.size_values, changed.values, Tree.size_values]
  exact live slot named

/-- The records that a rotation leaves. -/
def rotated (records : Records) (trail : Trail) (side : Side) (slot lifted : Nat) (inner : Link) :
    Records :=
  let sunk := (records.change (some slot) (Links.withChild side.opposite inner)).entrust inner (some slot)
  let raised := Trail.rehang (sunk.change (some lifted) (Links.withParent trail.parent)) trail (some lifted)
  (raised.change (some lifted) (Links.withChild side (some slot))).change (some slot)
    (Links.withParent (some lifted))

/-- A rotation runs through and leaves these records. -/
theorem rotate_changed
    (linked : tree.Linked (trail.plug (.join side hue slot near (.join side dye lifted inner far)))) :
    Safe (rotate side (some slot)) tree fun _ after turns => turns = 1 ∧
      Changed tree (rotated tree.record trail side slot lifted inner.link)
        (rehangRoot tree.root trail (some lifted)) after := by
  obtain ⟨trailHolds, holds⟩ := linked.parts
  obtain ⟨distinct, -, apart⟩ := linked.apart
  obtain ⟨own, -, below⟩ := Shape.holds_join.mp holds
  obtain ⟨ownLifted, innerHolds, -⟩ := Shape.holds_join.mp below
  have liveSlot : tree.Live (some slot) := fun _ named => by cases named; exact linked.live _ (by simp)
  have liveLifted : tree.Live (some lifted) := fun _ named => by
    cases named; exact linked.live _ (by simp)
  have liveInner : tree.Live inner.link := fun _ named =>
    linked.live _ (by simp [Shape.mem_slots_of_link named])
  have liveParent : tree.Live trail.parent := linked.live_parent
  simp only [Shape.nodup_join, Shape.mem_slots_join, not_or] at distinct
  have slotNotLifted : some slot ≠ some lifted := fun same => distinct.2.1.1 (Option.some.inj same)
  have slotNotInner : some slot ≠ inner.link := Shape.link_ne distinct.2.1.2.1
  unfold rotate
  apply rotation_then
  refine look_then (b := some lifted) (by rw [Tree.child_eq liveSlot, own]; simp) ?_
  refine look_then (b := inner.link) (by rw [Tree.child_eq liveLifted, ownLifted]; simp) ?_
  refine (setChild_still liveSlot (Option.some_ne_none _) _ _).andThen fun _ first firstDone => ?_
  refine (entrust_still (firstDone.live liveInner) _).andThen fun _ second secondDone => ?_
  have slotSecond : (second.record (some slot)).parent = trail.parent := by
    rw [secondDone.record, Records.entrust_other slotNotInner, firstDone.record]
    simp [own]
  refine look_then (b := trail.parent)
    (by rw [Tree.parent_eq (secondDone.live (firstDone.live liveSlot)), slotSecond]) ?_
  refine (setParent_still (secondDone.live (firstDone.live liveLifted)) _).andThen fun _ third thirdDone => ?_
  have trailThird : trail.Holds third.record (some slot) := by
    have innerTrail : ∀ other ∈ trail.slots, other ∉ inner.slots := fun other outside member =>
      apart other (by simp [member]) outside
    rw [Shape.link_join] at trailHolds
    rw [thirdDone.record, secondDone.record, firstDone.record]
    exact ((trailHolds.change (apart slot (by simp)) _).entrust_other innerTrail _).change
      (apart lifted (by simp)) _
  have live : ∀ link, tree.Live link → third.Live link := fun link live =>
    thirdDone.live (secondDone.live (firstDone.live live))
  refine (redirect_still trailThird (apart slot (by simp)) (live _ liveParent) (some lifted)).andThen
    fun _ fourth fourthDone => ?_
  refine (setChild_still (fourthDone.live (live _ liveLifted)) (Option.some_ne_none _) _ _).andThen fun _ fifth fifthDone => ?_
  refine (setParent_still (fifthDone.live (fourthDone.live (live _ liveSlot))) _).weaken ?_
  rintro _ sixth _ ⟨rfl, sixthDone⟩
  refine ⟨rfl, ?_, ?_, ?_, ?_⟩
  · rw [sixthDone.record, fifthDone.record, fourthDone.record, thirdDone.record, secondDone.record,
      firstDone.record]
    rfl
  · rw [sixthDone.root, fifthDone.root, fourthDone.root, thirdDone.root, secondDone.root,
      firstDone.root]
  · rw [sixthDone.engine, fifthDone.engine, fourthDone.engine, thirdDone.engine, secondDone.engine,
      firstDone.engine]
  · rw [sixthDone.values, fifthDone.values, fourthDone.values, thirdDone.values, secondDone.values,
      firstDone.values]

/-- The records after a rotation spell out the rotated shape. -/
theorem rotated_holds {records : Records}
    (holds : (trail.plug (.join side hue slot near (.join side dye lifted inner far))).Holds records none)
    (distinct : (trail.plug (.join side hue slot near (.join side dye lifted inner far))).slots.Nodup) :
    (trail.plug (.join side dye lifted (.join side hue slot near inner) far)).Holds
      (rotated records trail side slot lifted inner.link) none := by
  obtain ⟨trailHolds, holds⟩ := Trail.holds_plug.mp holds
  obtain ⟨own, nearHolds, below⟩ := Shape.holds_join.mp holds
  obtain ⟨ownLifted, innerHolds, farHolds⟩ := Shape.holds_join.mp below
  obtain ⟨inside, trailDistinct, apart⟩ := Trail.nodup_plug.mp distinct
  obtain ⟨slotNear, slotBelow, -, inside', nearApart⟩ := Shape.nodup_join.mp inside
  obtain ⟨liftedInner, liftedFar, innerDistinct, -, innerFar⟩ := Shape.nodup_join.mp inside'
  simp only [Shape.mem_slots_join, not_or] at slotBelow nearApart apart
  obtain ⟨slotLifted, slotInner, slotFar⟩ := slotBelow
  have slotTrail : slot ∉ trail.slots := apart slot (.inl rfl)
  have liftedTrail : lifted ∉ trail.slots := apart lifted (.inr (.inr (.inl rfl)))
  have someSlot : some slot ≠ some lifted := by simpa using slotLifted
  have slotOutside : ∀ other ∈ trail.slots, some slot ≠ some other := by
    rintro other outside ⟨rfl⟩
    exact slotTrail outside
  have liftedOutside : ∀ other ∈ trail.slots, some lifted ≠ some other := by
    rintro other outside ⟨rfl⟩
    exact liftedTrail outside
  rw [Trail.holds_plug, Shape.holds_join, Shape.holds_join]
  simp only [Shape.link_join] at *
  refine ⟨?_, ?_, ⟨?_, ?_, ?_⟩, ?_⟩
  case refine_1 =>
    have innerTrail : ∀ other ∈ trail.slots, other ∉ inner.slots := fun other outside member =>
      apart other (.inr (.inr (.inr (.inl member)))) outside
    have sunk := ((trailHolds.change slotTrail (Links.withChild side.opposite inner.link)).entrust_other
      innerTrail (some slot)).change liftedTrail (Links.withParent trail.parent)
    exact ((sunk.rehang trailDistinct (some lifted)).change liftedTrail _).change slotTrail _
  case refine_2 =>
    rw [rotated, Records.change_other someSlot.symm, Records.change_same,
      Trail.rehang_other liftedOutside, Records.change_same, Records.entrust_other (Shape.link_ne liftedInner),
      Records.change_other someSlot.symm, ownLifted]
    simp
  case refine_3 =>
    rw [rotated, Records.change_same, Records.change_other someSlot,
      Trail.rehang_other slotOutside, Records.change_other someSlot, Records.entrust_other (Shape.link_ne slotInner),
      Records.change_same, own]
    simp
  case refine_4 =>
    have liftedNear : lifted ∉ near.slots := fun member => (nearApart lifted member).1 rfl
    have sunk := ((nearHolds.change slotNear (Links.withChild side.opposite inner.link)).entrust_other
      (fun other member => (nearApart other member).2.1) (some slot)).change liftedNear
        (Links.withParent trail.parent)
    have raised := sunk.rehang (fun other member => apart other (.inr (.inl member))) (some lifted)
    exact (raised.change liftedNear _).change slotNear _
  case refine_5 =>
    have sunk := ((innerHolds.change slotInner (Links.withChild side.opposite inner.link)).entrust
      innerDistinct (some slot)).change liftedInner (Links.withParent trail.parent)
    have raised := sunk.rehang (fun other member => apart other (.inr (.inr (.inr (.inl member))))) (some lifted)
    exact (raised.change liftedInner _).change slotInner _
  case refine_6 =>
    have farInner : ∀ other ∈ far.slots, other ∉ inner.slots := fun other member inside =>
      innerFar other inside member
    have sunk := ((farHolds.change slotFar (Links.withChild side.opposite inner.link)).entrust_other
      farInner (some slot)).change liftedFar (Links.withParent trail.parent)
    have raised := sunk.rehang (fun other member => apart other (.inr (.inr (.inr (.inr member))))) (some lifted)
    exact (raised.change liftedFar _).change slotFar _

/-- A rotation leaves the sentinel alone, also when there is no inner grandchild. -/
theorem rotated_none {records : Records} {inner : Link} :
    rotated records trail side slot lifted inner none = records none := by
  have differs : ∀ slot : Nat, (none : Link) ≠ some slot := nofun
  simp only [rotated]
  rw [Records.change_other (differs _), Records.change_other (differs _),
    Trail.rehang_other fun other _ => differs other, Records.change_other (differs _),
    Records.entrust_none, Records.change_other (differs _)]

/-- A rotation turns the subtree at a place of the shape and changes nothing else. -/
theorem rotate_safe
    (linked : tree.Linked (trail.plug (.join side hue slot near (.join side dye lifted inner far)))) :
    Safe (rotate side (some slot)) tree fun _ after turns => turns = 1 ∧
      after.Linked (trail.plug (.join side dye lifted (.join side hue slot near inner) far)) ∧
        tree.Kept after := by
  refine (rotate_changed linked).weaken ?_
  rintro _ after _ ⟨rfl, changed⟩
  have kept : tree.Kept after := by
    refine ⟨changed.engine, changed.values, ?_⟩
    have atNone := congrFun changed.record none
    rwa [rotated_none] at atNone
  have sameSlots : (trail.plug (.join side dye lifted (.join side hue slot near inner) far)).slots =
      (trail.plug (.join side hue slot near (.join side dye lifted inner far))).slots :=
    Trail.slots_plug_congr trail (Shape.slots_rotate ..)
  refine ⟨rfl, ⟨?_, ?_, sameSlots ▸ linked.distinct, ?_⟩, kept⟩
  · rw [changed.root, linked.root, ← rehangRoot_plug trail _ (.join side dye lifted _ far), Shape.link_join]
  · rw [changed.record]
    exact rotated_holds linked.holds linked.distinct
  · rw [sameSlots, kept.size]
    exact linked.live

end Relink

end Containers
