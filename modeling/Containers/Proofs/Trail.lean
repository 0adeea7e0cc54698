import Containers.Proofs.Shape

/-! Places in a shape. Every subtree is reached from the root along one trail,
and what a trail says about order, slots and colours does not depend on the
subtree that hangs at its end. -/
namespace Containers

/-- The way from a place up to the root: at every step the side on which the
place hangs, the node above it, and the subtree on that node's other side. -/
inductive Trail where
  | top
  | under (side : Side) (color : Color) (slot : Nat) (sibling : Shape) (above : Trail)

namespace Trail
variable {side : Side} {hue : Color} {slot other rank : Nat} {sibling hole : Shape}
  {above : Trail}

/-- The whole shape when this subtree hangs at the place. -/
def plug : Trail → Shape → Shape
  | top, hole => hole
  | under side color slot sibling above, hole => above.plug (.join side color slot hole sibling)

/-- The link to the node above the place. -/
def parent : Trail → Link
  | top => none
  | under _ _ slot _ _ => some slot

/-- The colour of the node above the place; the sentinel counts as black. -/
def color : Trail → Color
  | top => .black
  | under _ color _ _ _ => color

/-- The same shape seen from the place on the other side of a node. -/
theorem plug_sibling : (under side hue slot sibling above).plug hole =
    (under side.opposite hue slot hole above).plug sibling := by
  rw [plug, plug, Shape.join_opposite]

/-- The number of nodes above the place. -/
def length : Trail → Nat
  | top => 0
  | under _ _ _ _ above => above.length + 1

/-- The slots beside the place, nearest first. -/
def slots : Trail → List Nat
  | top => []
  | under _ _ slot sibling above => slot :: (sibling.slots ++ above.slots)

/-- The slots to the left of the place, in order. -/
def before : Trail → List Nat
  | top => []
  | under .left _ _ _ above => above.before
  | under .right _ slot sibling above => above.before ++ sibling.slots ++ [slot]

/-- The slots to the right of the place, in order. -/
def after : Trail → List Nat
  | top => []
  | under .left _ slot sibling above => slot :: sibling.slots ++ above.after
  | under .right _ _ _ above => above.after

theorem slots_plug (trail : Trail) (hole : Shape) :
    (trail.plug hole).slots = trail.before ++ hole.slots ++ trail.after := by
  induction trail generalizing hole with
  | top => simp [plug, before, after]
  | under side hue slot sibling above ih =>
    cases side <;> simp [plug, before, after, ih, Shape.join, Shape.slots]

theorem slots_plug_congr (trail : Trail) {other : Shape} (same : hole.slots = other.slots) :
    (trail.plug hole).slots = (trail.plug other).slots := by
  rw [slots_plug, slots_plug, same]

theorem slots_plug_perm (trail : Trail) (hole : Shape) :
    (trail.plug hole).slots.Perm (hole.slots ++ trail.slots) := by
  induction trail generalizing hole with
  | top => simp [plug, slots]
  | under side hue slot sibling above ih =>
    refine (ih _).trans ((Shape.slots_join_perm.append_right _).trans ?_)
    simp only [slots, List.cons_append, List.append_assoc]
    exact List.perm_middle.symm

@[simp] theorem mem_slots_plug {trail : Trail} :
    slot ∈ (trail.plug hole).slots ↔ slot ∈ hole.slots ∨ slot ∈ trail.slots := by
  rw [(slots_plug_perm trail hole).mem_iff, List.mem_append]

theorem nodup_plug {trail : Trail} : (trail.plug hole).slots.Nodup ↔
    hole.slots.Nodup ∧ trail.slots.Nodup ∧ ∀ slot ∈ hole.slots, slot ∉ trail.slots := by
  rw [(slots_plug_perm trail hole).nodup_iff, List.nodup_append]
  apply and_congr_right
  intro _
  apply and_congr_right
  intro _
  constructor
  · intro apart slot inside outside
    exact apart slot inside slot outside rfl
  · rintro apart slot inside _ outside rfl
    exact apart slot inside outside

theorem mem_slots_of_parent {trail : Trail} (named : trail.parent = some slot) : slot ∈ trail.slots := by
  cases trail with
  | top => cases named
  | under side hue own sibling above =>
    cases named
    exact List.mem_cons_self

theorem length_le_slots (trail : Trail) : trail.length ≤ trail.slots.length := by
  induction trail with
  | top => exact Nat.le_refl 0
  | under side hue slot sibling above ih =>
    simp only [length, slots, List.length_cons, List.length_append]
    omega

/-- The root of a shape depends on a subtree's own root at most. -/
theorem link_plug_congr (trail : Trail) {hole other : Shape} (same : hole.link = other.link) :
    (trail.plug hole).link = (trail.plug other).link := by
  induction trail generalizing hole other with
  | top => exact same
  | under side hue slot sibling above ih => exact ih (by simp)

/-- A subtree with something above it is not the whole. -/
theorem link_plug_ne {trail : Trail} {hole : Shape} (proper : trail ≠ top)
    (distinct : (trail.plug hole).slots.Nodup) : (trail.plug hole).link ≠ hole.link := by
  obtain ⟨-, -, disjoint⟩ := nodup_plug.mp distinct
  have inside : ∀ trail : Trail, trail ≠ top → ∃ slot ∈ trail.slots,
      ∀ hole, (trail.plug hole).link = some slot := by
    intro trail
    induction trail with
    | top => exact fun impossible => absurd rfl impossible
    | under side hue slot sibling above ih =>
      intro _
      by_cases nearest : above = top
      · subst nearest
        exact ⟨slot, by simp [slots], fun hole => Shape.link_join⟩
      · obtain ⟨root, member, named⟩ := ih nearest
        exact ⟨root, by simp [slots, member], fun hole => named _⟩
  obtain ⟨root, member, named⟩ := inside trail proper
  rw [named hole]
  exact fun same => disjoint root (Shape.mem_slots_of_link same.symm) member

/-! Colours along the trail. -/

/-- The node above the place is there and black. -/
def UnderBlack : Trail → Prop
  | top => False
  | under _ color _ _ _ => color = .black

theorem UnderBlack.color {trail : Trail} (underBlack : trail.UnderBlack) : trail.color = .black := by
  cases trail with
  | top => rfl
  | under side hue slot sibling above => exact underBlack

/-- The rest of the shape is in order for a subtree of black height `rank`: red
nodes of the trail hang under black ones beside black subtrees, so the root is
black, and every other way down is as long as those through the place. -/
def Around : Trail → Nat → Prop
  | top, _ => True
  | under _ .red _ sibling above, rank =>
    sibling.color = .black ∧ sibling.Balanced rank ∧ above.UnderBlack ∧ above.Around rank
  | under _ .black _ sibling above, rank => sibling.Balanced rank ∧ above.Around (rank + 1)

/-- A subtree that may hang at the place: it is black, or has a black parent. -/
def Admits (trail : Trail) (hole : Shape) : Prop :=
  hole.color = .black ∨ trail.UnderBlack

/-- A fitting subtree in a fitting place makes a whole in order. -/
theorem balanced_plug {trail : Trail} {hole : Shape} (around : trail.Around rank)
    (balanced : hole.Balanced rank) (admits : trail.Admits hole) :
    ∃ total, (trail.plug hole).Balanced total ∧ (trail.plug hole).color = .black := by
  induction trail generalizing rank hole with
  | top => exact ⟨rank, balanced, admits.resolve_right id⟩
  | under side hue slot sibling above ih =>
    cases hue with
    | red =>
      obtain ⟨siblingBlack, siblingBalanced, underBlack, aroundAbove⟩ := around
      have holeBlack : hole.color = .black := admits.resolve_right (by simp [UnderBlack])
      exact ih aroundAbove
        (Shape.balanced_red.mpr ⟨holeBlack, siblingBlack, balanced, siblingBalanced⟩) (.inr underBlack)
    | black =>
      obtain ⟨siblingBalanced, aroundAbove⟩ := around
      exact ih aroundAbove (Shape.balanced_black.mpr ⟨balanced, siblingBalanced⟩)
        (.inl Shape.color_join)

/-- The subtree at a place of a whole in order fits there. -/
theorem Around.of_plug {trail : Trail} {hole : Shape} {total : Nat}
    (balanced : (trail.plug hole).Balanced total) (black : (trail.plug hole).color = .black) :
    ∃ rank, trail.Around rank ∧ hole.Balanced rank ∧ trail.Admits hole := by
  induction trail generalizing hole with
  | top => exact ⟨total, trivial, balanced, .inl black⟩
  | under side hue slot sibling above ih =>
    obtain ⟨rank, around, inner, admits⟩ := ih balanced black
    cases hue with
    | red =>
      obtain ⟨holeBlack, siblingBlack, holeBalanced, siblingBalanced⟩ := Shape.balanced_red.mp inner
      have underBlack : above.UnderBlack := admits.resolve_left (by simp)
      exact ⟨rank, ⟨siblingBlack, siblingBalanced, underBlack, around⟩, holeBalanced, .inl holeBlack⟩
    | black =>
      obtain ⟨below, rfl, holeBalanced, siblingBalanced⟩ := inner.below_black
      exact ⟨below, ⟨siblingBalanced, around⟩, holeBalanced, .inr rfl⟩

end Trail

end Containers
