import Containers.Proofs.Rotation
import Containers.Tree.Insert

/-! The repair after an insertion. While it runs, the shape is in order but for
one red node that may hang under a red parent. A round either moves that node
two levels up by painting alone, or ends the trouble by at most two rotations. -/
namespace Containers

/-- Comparing a node with the left child of its parent tells its side. -/
theorem Tree.Linked.side_eq {α : Type} {tree : Tree α} {side : Side} {hue : Color} {parent : Nat}
    {hole sibling : Shape} {above : Trail} {link : Link}
    (linked : tree.Linked ((Trail.under side hue parent sibling above).plug hole))
    (named : hole.link = link) (differs : link ≠ sibling.link) :
    ∃ left, tree.child .left (some parent) = .ok left ∧
      (if link = left then Side.left else Side.right) = side := by
  obtain ⟨near, far⟩ := linked.child_eq
  cases side with
  | left => exact ⟨hole.link, near, if_pos named.symm⟩
  | right => exact ⟨sibling.link, far, if_neg differs⟩

namespace Relink
variable {α : Type} {tree : Tree α} {trail : Trail} {hole : Shape} {dye : Color}

/-- Painting a node, or the sentinel in the colour that it has. -/
theorem setColor_still {link : Link} (linked : tree.Linked (trail.plug hole)) (named : hole.link = link)
    (fits : link = none → dye = .black ∧ tree.sentinel.color = .black) :
    Still (setColor link dye) tree fun _ after =>
      after.Linked (trail.plug (hole.paint dye)) ∧ tree.Kept after := by
  subst named
  obtain ⟨trailHolds, holds⟩ := linked.parts
  obtain ⟨distinct, -, apart⟩ := linked.apart
  obtain ⟨after, amended, changed⟩ := amend_eq linked.live_link (Links.withColor dye)
  refine step_safe amended (fun missing => (fits missing).1) ⟨rfl, ?_⟩
  have kept : tree.Kept after := by
    refine ⟨changed.engine, changed.values, ?_⟩
    have atNone := congrFun changed.record none
    cases hole with
    | leaf =>
      obtain ⟨rfl, black⟩ := fits rfl
      exact atNone.trans (black ▸ rfl)
    | node own left slot right => exact atNone.trans (Records.change_other (by simp [Shape.link]))
  have sameSlots : (trail.plug (hole.paint dye)).slots = (trail.plug hole).slots :=
    Trail.slots_plug_congr trail (Shape.slots_paint hole)
  refine ⟨⟨?_, ?_, sameSlots ▸ linked.distinct, ?_⟩, kept⟩
  · rw [changed.root, linked.root, Trail.link_plug_congr trail (Shape.link_paint hole)]
  · rw [changed.record, Trail.holds_plug, Shape.link_paint]
    refine ⟨trailHolds.congr fun other member => Records.change_other ?_, holds.repaint distinct dye⟩
    exact Shape.link_ne fun inside => apart other inside member
  · rw [sameSlots, kept.size]
    exact linked.live

theorem paintNode_still {side : Side} {hue : Color} {slot : Nat} {near far : Shape}
    (linked : tree.Linked (trail.plug (.join side hue slot near far))) :
    Still (setColor (some slot) dye) tree fun _ after =>
      after.Linked (trail.plug (.join side dye slot near far)) ∧ tree.Kept after := by
  rw [← Shape.paint_join]
  exact setColor_still linked Shape.link_join (by simp)

end Relink

namespace Trail
variable {trail : Trail} {hole : Shape} {rank : Nat}

/-- The trouble of an insertion: a red subtree that is in order, at a place that
is in order, though perhaps under a red node. -/
structure RedAt (trail : Trail) (hole : Shape) (rank : Nat) : Prop where
  red : hole.color = .red
  balanced : hole.Balanced rank
  around : trail.Around rank

/-- A new node hangs red in the place of a missing child of a whole in order. -/
theorem redAt_new {total : Nat} (balanced : (trail.plug .leaf).Balanced total)
    (black : (trail.plug .leaf).color = .black) (slot : Nat) : trail.RedAt (.node .red .leaf slot .leaf) 0 := by
  obtain ⟨rank, around, atLeaf, -⟩ := Around.of_plug balanced black
  obtain rfl : rank = 0 := atLeaf
  exact ⟨rfl, ⟨rfl, rfl, rfl, rfl⟩, around⟩

/-- A red parent hangs under a black one, for it is not the root. -/
theorem Around.above_red (around : trail.Around rank) (red : trail.color = .red) :
    ∃ side parent sibling upper grand uncle above,
      trail = under side .red parent sibling (under upper .black grand uncle above) := by
  cases trail with
  | top => cases red
  | under side hue parent sibling above =>
    cases red
    obtain ⟨-, -, underBlack, -⟩ := around
    cases above with
    | top => exact underBlack.elim
    | under upper hue grand uncle above =>
      cases underBlack
      exact ⟨side, parent, sibling, upper, grand, uncle, above, rfl⟩

/-- Painting the root black ends the trouble under a black node or at the root. -/
theorem RedAt.blackened (trouble : trail.RedAt hole rank) (ends : trail.color = .black) :
    ∃ total, ((trail.plug hole).paint .black).Balanced total := by
  cases trail with
  | top => exact ⟨rank + 1, trouble.balanced.paint_black trouble.red⟩
  | under side hue parent sibling above =>
    obtain ⟨total, balanced, black⟩ := balanced_plug trouble.around trouble.balanced (.inr ends)
    exact ⟨total, by rwa [Shape.paint_own _ black]⟩

end Trail

namespace Relink
variable {α : Type} {tree : Tree α} {trail above : Trail} {hole sibling uncle : Shape}
  {side upper : Side} {slot parent grand rank : Nat}

/-- What one round of the repair leaves: the trouble nearer to the root, with
nothing rotated or else under a black node after two rotations at most. -/
def RedRound (tree : Tree α) (trail : Trail) (hole : Shape) (answer : Link)
    (after : Tree α) (turns : Nat) : Prop :=
  ∃ (trail' : Trail) (hole' : Shape) (rank : Nat), answer = hole'.link ∧
    after.Linked (trail'.plug hole') ∧ (trail'.plug hole').slots = (trail.plug hole).slots ∧
    tree.Kept after ∧ trail'.RedAt hole' rank ∧ trail'.length < trail.length ∧
    (turns = 0 ∨ trail'.UnderBlack ∧ turns ≤ 2)

/-- Once both red nodes hang on the same side, the lower one is what `straighten`
answers, and one rotation of the grandparent is enough. -/
theorem straighten_safe
    (linked : tree.Linked
      ((Trail.under side .red parent sibling (.under upper .black grand uncle above)).plug hole))
    (named : hole.link = some slot)
    (trouble : (Trail.under side .red parent sibling (.under upper .black grand uncle above)).RedAt hole rank) :
    Safe (repairRedStep.straighten upper (some slot) (some parent)) tree fun answer after turns => turns ≤ 1 ∧
      ∃ middle low high, answer = low.link ∧ tree.Kept after ∧
        after.Linked ((Trail.under upper .black grand uncle above).plug (.join upper .red middle low high)) ∧
        (Shape.join upper .red middle low high).slots = (Shape.join side .red parent hole sibling).slots ∧
        low.color = .red ∧ high.color = .black ∧ low.Balanced rank ∧ high.Balanced rank := by
  obtain ⟨red, balanced, siblingBlack, siblingBalanced, -⟩ := trouble
  obtain ⟨near, far⟩ := linked.child_eq
  unfold repairRedStep.straighten
  by_cases outer : side = upper
  · subst outer
    have slotNotSibling : some slot ≠ sibling.link :=
      Shape.link_ne fun inside => linked.apart.2.2 slot (Shape.mem_slots_of_link named)
        (by simp [Trail.slots, inside])
    refine look_then far ?_
    rw [if_neg slotNotSibling]
    exact .pure ⟨Nat.zero_le 1, parent, hole, sibling, named.symm, .refl tree, linked, rfl, red, siblingBlack,
      balanced, siblingBalanced⟩
  · have inner : side = upper.opposite := by cases side <;> cases upper <;> simp_all [Side.opposite]
    subst inner
    refine look_then near ?_
    rw [if_pos named.symm]
    obtain ⟨own, inside, high, rfl, insideBlack, highBlack, insideBalanced, highBalanced⟩ :=
      balanced.red_node red upper
    obtain rfl : own = slot := by simpa using named
    rw [Trail.plug, Shape.join_opposite] at linked
    apply (rotate_safe linked).andCount
    rintro _ after _ ⟨rfl, turned, kept⟩
    refine .pure ⟨Nat.le_refl 1, own, .join upper .red parent sibling inside, high, Shape.link_join.symm, kept,
      turned, ?_, Shape.color_join, highBlack, ?_, highBalanced⟩
    · rw [Shape.join_opposite]
      exact Shape.slots_rotate ..
    · exact Shape.balanced_red.mpr ⟨siblingBlack, insideBlack, siblingBalanced, insideBalanced⟩

/-- When the uncle is black, the upper red node takes the grandparent's place. -/
theorem raise_safe {middle : Nat} {low high : Shape} (answer : Link)
    (linked : tree.Linked
      ((Trail.under upper .black grand uncle above).plug (.join upper .red middle low high))) :
    Safe (do
        setColor (some middle) .black
        setColor (some grand) .red
        rotate upper.opposite (some grand)
        return answer : Relink α Link) tree fun result after turns => turns = 1 ∧
      result = answer ∧ tree.Kept after ∧ after.Linked (above.plug
        (.join upper .black middle low (.join upper .red grand high uncle))) := by
  apply (paintNode_still linked).andThen
  rintro _ first ⟨atMiddle, keptFirst⟩
  rw [Trail.plug] at atMiddle
  apply (paintNode_still atMiddle).andThen
  rintro _ second ⟨atGrand, keptSecond⟩
  rw [← Shape.join_opposite, ← Shape.join_opposite high] at atGrand
  apply (rotate_safe atGrand).andCount
  rintro _ after _ ⟨rfl, turned, keptThird⟩
  rw [Shape.join_opposite, Shape.join_opposite] at turned
  exact .pure ⟨rfl, rfl, (keptFirst.trans keptSecond).trans keptThird, turned⟩

/-- When the uncle is red, painting moves the trouble to the grandparent. -/
theorem repaint_still
    (linked : tree.Linked
      ((Trail.under side .red parent sibling (.under upper .black grand uncle above)).plug hole))
    (red : uncle.color = .red) :
    Still (do
        setColor (some parent) .black
        setColor uncle.link .black
        setColor (some grand) .red
        return some grand : Relink α Link) tree fun answer after =>
      answer = some grand ∧ tree.Kept after ∧ after.Linked (above.plug (.join upper .red grand
        (.join side .black parent hole sibling) (uncle.paint .black))) := by
  obtain ⟨uncleSlot, uncleNamed⟩ := Shape.exists_link_of_red red
  apply (paintNode_still linked.up).andThen
  rintro _ first ⟨atParent, keptFirst⟩
  rw [Trail.plug_sibling] at atParent
  apply (setColor_still atParent rfl (by simp [uncleNamed])).andThen
  rintro _ second ⟨atUncle, keptSecond⟩
  rw [Trail.plug, Shape.join_opposite] at atUncle
  apply (paintNode_still atUncle).andThen
  rintro _ third ⟨atGrand, keptThird⟩
  exact .pure ⟨rfl, rfl, (keptFirst.trans keptSecond).trans keptThird, atGrand⟩

theorem repairRedStep_safe
    (linked : tree.Linked
      ((Trail.under side .red parent sibling (.under upper .black grand uncle above)).plug hole))
    (named : hole.link = some slot) (sentinel : tree.sentinel.color = .black)
    (trouble : (Trail.under side .red parent sibling (.under upper .black grand uncle above)).RedAt hole rank) :
    Safe (repairRedStep (some slot)) tree (RedRound tree
      (.under side .red parent sibling (.under upper .black grand uncle above)) hole) := by
  have atParent : tree.Linked ((Trail.under upper .black grand uncle above).plug
    (.join side .red parent hole sibling)) := linked
  have parentNotUncle : some parent ≠ uncle.link :=
    Shape.link_ne fun inside => atParent.apart.2.2 parent (by simp) (by simp [Trail.slots, inside])
  obtain ⟨_, siblingBalanced, _, uncleBalanced, aroundAbove⟩ := trouble.around
  unfold repairRedStep
  refine look_then (b := some parent) (linked.parent_eq named) ?_
  refine look_then (b := some grand) (atParent.parent_eq Shape.link_join) ?_
  obtain ⟨left, isLeft, isSide⟩ := atParent.side_eq Shape.link_join parentNotUncle
  refine look_then isLeft ?_
  simp only [isSide]
  refine look_then atParent.child_eq.2 ?_
  refine look_then ((Trail.plug_sibling ▸ atParent).color_eq sentinel) ?_
  split
  · rename_i uncleRed
    refine (repaint_still linked uncleRed).weaken ?_
    rintro _ after _ ⟨rfl, rfl, kept, painted⟩
    refine ⟨above, _, rank + 1, Shape.link_join.symm, painted, ?_, kept, ⟨Shape.color_join, ?_, aroundAbove⟩,
      by simp only [Trail.length]; omega, .inl rfl⟩
    · exact Trail.slots_plug_congr above (Shape.slots_join_congr (Shape.slots_join_congr rfl rfl)
        (Shape.slots_paint uncle))
    · exact Shape.balanced_red.mpr ⟨Shape.color_join, Shape.color_paint_black uncle,
        Shape.balanced_black.mpr ⟨trouble.balanced, siblingBalanced⟩, uncleBalanced.paint_black uncleRed⟩
  · rename_i uncleNotRed
    have uncleBlack : uncle.color = .black := Color.ne_red.mp uncleNotRed
    refine (straighten_safe linked named trouble).andCount ?_
    rintro _ first turns ⟨few, middle, low, high, rfl, keptFirst, straight, sameSlots, lowRed,
      highBlack, lowBalanced, highBalanced⟩
    obtain ⟨lowSlot, lowNamed⟩ := Shape.exists_link_of_red lowRed
    have atLow : first.Linked ((Trail.under upper .red middle high
      (.under upper .black grand uncle above)).plug low) := straight
    rw [lowNamed]
    refine look_then (b := some middle) (atLow.parent_eq lowNamed) ?_
    refine look_then (b := some grand) (straight.parent_eq Shape.link_join) ?_
    refine (raise_safe _ straight).weaken ?_
    rintro _ after _ ⟨rfl, rfl, kept, raised⟩
    refine ⟨.under upper .black middle (.join upper .red grand high uncle) above, low, rank, lowNamed.symm,
      raised, ?_, keptFirst.trans kept, ⟨lowRed, lowBalanced, ?_, aroundAbove⟩,
      by simp only [Trail.length]; omega, .inr ⟨rfl, Nat.succ_le_succ few⟩⟩
    · exact Trail.slots_plug_congr above
        ((Shape.slots_rotate .black .red _ _).symm.trans
        (Shape.slots_join_congr sameSlots rfl))
    · exact Shape.balanced_red.mpr ⟨highBlack, uncleBlack, highBalanced, uncleBalanced⟩

/-- The repair loop ends with the trouble at the root or under a black node. -/
theorem repairRedFrom_safe (rounds : Nat) {link : Link} (linked : tree.Linked (trail.plug hole))
    (named : hole.link = link) (sentinel : tree.sentinel.color = .black)
    (trouble : trail.RedAt hole rank) (enough : trail.length < rounds) :
    Safe (repairRedFrom rounds link) tree fun _ after turns =>
      turns ≤ 2 ∧ (trail.color = .black → turns = 0) ∧
      ∃ (trail' : Trail) (hole' : Shape) (rank' : Nat), after.Linked (trail'.plug hole') ∧
        (trail'.plug hole').slots = (trail.plug hole).slots ∧ tree.Kept after ∧
        trail'.RedAt hole' rank' ∧ trail'.color = .black := by
  induction rounds generalizing tree trail hole rank link with
  | zero => omega
  | succ rounds ih =>
    obtain ⟨slot, isNode⟩ := Shape.exists_link_of_red trouble.red
    obtain rfl : link = some slot := named.symm.trans isNode
    unfold repairRedFrom
    refine look_then (linked.parent_eq named) ?_
    refine look_then (linked.parent_color_eq sentinel) ?_
    split
    · rename_i isRed
      obtain ⟨side, parent, sibling, upper, grand, uncle, above, rfl⟩ := trouble.around.above_red isRed
      refine (repairRedStep_safe linked named sentinel trouble).andCount ?_
      rintro _ middle turns ⟨trail', hole', rank', rfl, linked', sameSlots, kept, trouble', nearer, round⟩
      refine (ih linked' rfl (kept.sentinel ▸ sentinel) trouble' (by omega)).weaken ?_
      rintro _ after more ⟨few, none, trail'', hole'', rank'', linked'', sameSlots', kept', trouble'', ends⟩
      refine ⟨?_, fun black => absurd (isRed.symm.trans black) (by simp), trail'', hole'', rank'', linked'',
        sameSlots'.trans sameSlots, kept.trans kept', trouble'', ends⟩
      rcases round with rfl | ⟨underBlack, few'⟩
      · omega
      · have := none underBlack.color
        omega
    · rename_i notRed
      have black : trail.color = .black := Color.ne_red.mp notRed
      exact .pure ⟨Nat.zero_le 2, fun _ => rfl, trail, hole, rank, linked, rfl, .refl tree, trouble, black⟩

/-- The repair puts a whole in order again in which one red node may hang under
a red parent. -/
theorem repairRed_safe {link : Link} (linked : tree.Linked (trail.plug hole)) (named : hole.link = link)
    (sentinel : tree.sentinel.color = .black) (trouble : trail.RedAt hole rank) :
    Safe (repairRed link) tree fun _ after turns => turns ≤ 2 ∧
      ∃ (whole : Shape) (total : Nat), after.Linked whole ∧ whole.slots = (trail.plug hole).slots ∧
        tree.Kept after ∧ whole.Balanced total ∧ whole.color = .black := by
  unfold repairRed
  apply current_then
  refine (repairRedFrom_safe tree.stepLimit linked named sentinel trouble linked.trail_lt).andCount ?_
  rintro _ middle turns ⟨few, -, trail', hole', rank', linked', sameSlots, kept, trouble', ends⟩
  apply current_then
  obtain ⟨total, balanced⟩ := trouble'.blackened ends
  have atRoot : middle.Linked (Trail.top.plug (trail'.plug hole')) := linked'
  refine (setColor_still atRoot linked'.root.symm fun _ => ⟨rfl, kept.sentinel ▸ sentinel⟩).weaken ?_
  rintro _ after _ ⟨rfl, painted, kept'⟩
  exact ⟨few, _, total, painted, (Shape.slots_paint _).trans sameSlots, kept.trans kept', balanced,
    Shape.color_paint_black _⟩

end Relink

end Containers
