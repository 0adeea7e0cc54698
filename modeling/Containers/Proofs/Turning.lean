import Containers.Proofs.Search

/-! Rotations undo each other. A rotation to one side lifts a child above its parent, and
the rotation to the other side, asked of the lifted child, puts the parent back. Both rest
on the links alone: they spell out a shape before and after, a shape says what its records
are, and a rotation leaves the records of all but four nodes as they were. -/
namespace Containers

namespace Relink
variable {α : Type} {tree : Tree α} {trail : Trail} {shape : Shape} {side : Side} {slot lifted : Nat}
  {records : Records} {link inner : Link}

/-- A rotation leaves the colours alone. -/
theorem color_rotated : (rotated records trail side slot lifted inner link).color = (records link).color := by
  have parents : ∀ (link : Link) (links : Links), (links.withParent link).color = links.color := fun _ _ => rfl
  simp only [rotated]
  rw [Records.color_change (parents _), Records.color_change (Links.color_withChild side _), Trail.color_rehang,
    Records.color_change (parents _), Records.color_entrust, Records.color_change (Links.color_withChild _ inner)]

/-- A rotation changes four records at most. -/
theorem rotated_other (notSlot : link ≠ some slot) (notLifted : link ≠ some lifted) (notInner : link ≠ inner)
    (notParent : link ≠ trail.parent) : rotated records trail side slot lifted inner link = records link := by
  simp only [rotated]
  rw [Records.change_other notSlot, Records.change_other notLifted, Trail.rehang_beside notParent,
    Records.change_other notLifted, Records.entrust_other notInner, Records.change_other notSlot]

/-- What a rotation leaves: the child on the other side of a node stands above it now, in its
old place. The links spell out a shape of the same slots in the same order; values, colours and
the sentinel are as before, and so are the links of all nodes but the two that changed places,
the grandchild that went from one to the other, and the parent. -/
structure Turned (before : Tree α) (shape : Shape) (side : Side) (slot lifted : Nat) (after : Tree α) : Prop where
  linked : ∃ turned, after.Linked turned ∧ turned.slots = shape.slots
  sunk : after.child side (some lifted) = .ok (some slot) ∧ after.parent (some slot) = .ok (some lifted)
  raised : after.parent (some lifted) = before.parent (some slot)
  passed : after.child side.opposite (some slot) = before.child side (some lifted)
  engine : after.nodes.engine = before.nodes.engine
  values : after.values = before.values
  color : ∀ link, (after.record link).color = (before.record link).color
  sentinel : after.sentinel = before.sentinel
  other : ∀ link, link ≠ some slot → link ≠ some lifted → before.child side (some lifted) ≠ .ok link →
    before.parent (some slot) ≠ .ok link → after.record link = before.record link

/-- The place of a node that has a child on the other side. -/
theorem exists_place (linked : tree.Linked shape) (inside : slot ∈ shape.slots)
    (hangs : tree.child side.opposite (some slot) = .ok (some lifted)) :
    ∃ trail hue near dye inner far,
      shape = Trail.plug trail (.join side hue slot near (.join side dye lifted inner far)) := by
  obtain ⟨trail, hue, near, below, rfl⟩ := Trail.exists_plug_join side inside
  have named : below.link = some lifted := Except.ok.inj (linked.down.child_eq.2.symm.trans hangs)
  rcases Shape.eq_leaf_or_join side below with rfl | ⟨own, inner, far, isNode⟩
  · cases named
  · rw [isNode, Shape.link_join] at named
    cases named
    exact ⟨trail, hue, near, below.color, inner, far, by rw [← isNode]⟩

section Placed
variable {hue dye : Color} {near middle far : Shape} {after : Tree α} {other : Nat}

/-- All the records that a rotation changes belong to the shape. -/
theorem rotated_outside
    (outside : other ∉ (trail.plug (.join side hue slot near (.join side dye lifted middle far))).slots) :
    rotated records trail side slot lifted middle.link (some other) = records (some other) := by
  simp only [Trail.mem_slots_plug, Shape.mem_slots_join, not_or] at outside
  obtain ⟨⟨notSlot, -, notLifted, notMiddle, -⟩, notAbove⟩ := outside
  apply rotated_other
  · simpa using notSlot
  · simpa using notLifted
  · exact Shape.link_ne notMiddle
  · exact fun named => notAbove (Trail.mem_slots_of_parent named.symm)

theorem rotate_turned
    (linked : tree.Linked (trail.plug (.join side hue slot near (.join side dye lifted middle far))))
    (ran : (rotate side (some slot)).run tree = .ok () after) :
    Turned tree (trail.plug (.join side hue slot near (.join side dye lifted middle far))) side slot lifted after := by
  obtain ⟨_, -, changed⟩ := (rotate_changed linked).runs.of_ok ran
  obtain ⟨_, -, linked', kept⟩ := (rotate_safe linked).runs.of_ok ran
  have below := linked.down
  rw [Trail.plug_sibling] at below
  have atLifted : tree.child side (some lifted) = .ok middle.link := below.down.child_eq.1
  have atSlot : tree.parent (some slot) = .ok trail.parent := linked.parent_eq Shape.link_join
  constructor
  case linked => exact ⟨_, linked', Trail.slots_plug_congr trail (Shape.slots_rotate ..)⟩
  case sunk =>
    constructor
    · rw [linked'.down.child_eq.1, Shape.link_join]
    · exact linked'.down.parent_eq Shape.link_join
  case raised => rw [linked'.parent_eq Shape.link_join, atSlot]
  case passed => rw [linked'.down.down.child_eq.2, atLifted]
  case engine => exact changed.engine
  case values => exact changed.values
  case color =>
    intro link
    rw [changed.record]
    exact color_rotated
  case sentinel => exact kept.sentinel
  case other =>
    intro link notSlot notLifted notMiddle notParent
    rw [changed.record]
    apply rotated_other notSlot notLifted
    · rintro rfl
      exact notMiddle atLifted
    · rintro rfl
      exact notParent atSlot

end Placed

/-- Trees that spell out one shape are equal if they agree on everything else. -/
theorem eq_of_linked {other : Tree α} (linked : tree.Linked shape) (linked' : other.Linked shape)
    (kept : tree.Kept other)
    (outside : ∀ slot, slot ∉ shape.slots → other.record (some slot) = tree.record (some slot)) : other = tree := by
  apply Tree.ext_record kept.engine kept.values
  · funext link
    cases link with
    | none => exact kept.sentinel
    | some slot =>
      by_cases inside : slot ∈ shape.slots
      · exact linked.holds.record_eq linked'.holds inside
      · exact outside slot inside
  · rw [linked'.root, linked.root]

/-- On every arena whose links form a tree, whatever its colours and values are, a rotation of
a node that has a child on the other side makes the two change places and nothing else, and
the rotation of the child back to the other side restores the arena. -/
theorem rotations_undo (linked : tree.Linked shape) (inside : slot ∈ shape.slots)
    (hangs : tree.child side.opposite (some slot) = .ok (some lifted)) :
    ∃ after, (rotate side (some slot)).run tree = .ok () after ∧ Turned tree shape side slot lifted after ∧
      (rotate side.opposite (some lifted)).run after = .ok () tree := by
  obtain ⟨trail, hue, near, dye, inner, far, rfl⟩ := exists_place linked inside hangs
  obtain ⟨_, after, ran, _, -, changed⟩ := (rotate_changed linked).runs.answers
  obtain ⟨_, -, linked', kept⟩ := (rotate_safe linked).runs.of_ok ran
  have mirrored : after.Linked (trail.plug
      (.join side.opposite dye lifted far (.join side.opposite hue slot inner near))) := by
    rwa [Shape.join_opposite, Shape.join_opposite]
  obtain ⟨_, back, ranBack, _, -, changedBack⟩ := (rotate_changed mirrored).runs.answers
  obtain ⟨_, -, linkedBack, keptBack⟩ := (rotate_safe mirrored).runs.of_ok ranBack
  rw [Shape.join_opposite, Shape.join_opposite] at linkedBack
  have restored : back = tree := by
    apply eq_of_linked linked linkedBack (kept.trans keptBack)
    intro other outside
    have outsideBack : other ∉ (trail.plug
        (.join side.opposite dye lifted far (.join side.opposite hue slot inner near))).slots := by
      rwa [Shape.join_opposite, Shape.join_opposite, Trail.slots_plug_congr trail (Shape.slots_rotate dye hue dye hue)]
    rw [changedBack.record, rotated_outside outsideBack, changed.record, rotated_outside outside]
  exact ⟨after, ran, rotate_turned linked ran, restored ▸ ranBack⟩

/-- Two red nodes and a third that no link leads to, with a sentinel that is not at rest. -/
def crooked : Tree Nat where
  nodes := ⟨.inline 3, #[⟨⟨none, none, some 2, .red⟩, 5⟩, ⟨⟨some 1, none, some 0, .black⟩, 5⟩,
    ⟨⟨none, some 0, none, .red⟩, 7⟩]⟩
  sentinel := ⟨none, none, some 1, .red⟩
  root := some 2

/-- The node is the root here, and nothing hangs between it and its child. -/
theorem rotations_undo_crooked :
    crooked.Linked (.node .red .leaf 2 (.node .red .leaf 0 .leaf)) ∧
      crooked.child .right (some 2) = .ok (some 0) ∧
      ∃ after, (rotate .left (some 2)).run crooked = .ok () after ∧
        Turned crooked (.node .red .leaf 2 (.node .red .leaf 0 .leaf)) .left 2 0 after ∧
        (rotate .right (some 0)).run after = .ok () crooked := by
  have linked : crooked.Linked (.node .red .leaf 2 (.node .red .leaf 0 .leaf)) :=
    ⟨rfl, ⟨rfl, trivial, rfl, trivial, trivial⟩, by decide, by decide⟩
  have hangs : crooked.child Side.left.opposite (some 2) = .ok (some 0) := rfl
  exact ⟨linked, hangs, rotations_undo linked (by decide) hangs⟩

end Relink

end Containers
