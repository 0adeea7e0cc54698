import Containers.Proofs.InsertRepair
import Containers.Tree.Erase

/-! The repair after a removal. While it runs, the ways through one place are a
black node short. A round makes the sibling black if it is red, and then either
paints the shortage away to the parent or ends it by at most two rotations. The
place may be empty: then the sentinel stands there, and its record names the
parent. -/
namespace Containers

namespace Trail
variable {trail above : Trail} {hole sibling : Shape} {rank slot : Nat} {side : Side} {hue : Color}

/-- The shortage of a removal: at a place whose surroundings ask for black height
`rank + 1` hangs a black subtree of black height `rank`, or a red one that only
needs to be painted. -/
structure ShortAt (trail : Trail) (hole : Shape) (rank : Nat) : Prop where
  around : trail.Around (rank + 1)
  short : hole.color = .black ∧ hole.Balanced rank ∨
    hole.color = .red ∧ (hole.paint .black).Balanced (rank + 1)

theorem Around.sibling_balanced (around : (under side hue slot sibling above).Around rank) :
    sibling.Balanced rank := by
  cases hue with
  | red => exact around.2.1
  | black => exact around.1

/-- A sibling painted red takes a black node from the other ways through the
parent, so that the parent is where the shortage is then. -/
theorem Around.short_above {near far : Shape} {parent : Nat}
    (around : (under side hue parent (.join side .black slot near far) above).Around (rank + 1))
    (balanced : hole.Balanced rank) (nearBlack : near.color = .black) (farBlack : far.color = .black) :
    ∃ rank', above.ShortAt (.join side hue parent hole (.join side .red slot near far)) rank' := by
  obtain ⟨nearBalanced, farBalanced⟩ := Shape.balanced_black.mp around.sibling_balanced
  have siblingBalanced : (Shape.join side .red slot near far).Balanced rank :=
    Shape.balanced_red.mpr ⟨nearBlack, farBlack, nearBalanced, farBalanced⟩
  cases hue with
  | red =>
    refine ⟨rank, around.2.2.2, .inr ⟨Shape.color_join, ?_⟩⟩
    rw [Shape.paint_join]
    exact Shape.balanced_black.mpr ⟨balanced, siblingBalanced⟩
  | black =>
    exact ⟨rank + 1, around.2, .inl ⟨Shape.color_join, Shape.balanced_black.mpr ⟨balanced, siblingBalanced⟩⟩⟩

/-- A sibling with a red outer child has a black node to spare for the other side. -/
theorem Around.replaced (slot : Nat) {near far : Shape} {parent : Nat}
    (around : (under side hue parent sibling above).Around (rank + 1))
    (balanced : hole.Balanced rank) (farRed : far.color = .red) (nearBalanced : near.Balanced rank)
    (farBalanced : far.Balanced rank) :
    ∃ total, (above.plug (.join side hue slot (.join side .black parent hole near)
        (far.paint .black))).Balanced total ∧
      (above.plug (.join side hue slot (.join side .black parent hole near)
        (far.paint .black))).color = .black := by
  have lower : (Shape.join side .black parent hole near).Balanced (rank + 1) :=
    Shape.balanced_black.mpr ⟨balanced, nearBalanced⟩
  have outer := farBalanced.paint_black farRed
  cases hue with
  | red =>
    obtain ⟨-, -, underBlack, aroundAbove⟩ := around
    exact balanced_plug aroundAbove (Shape.balanced_red.mpr
      ⟨Shape.color_join, Shape.color_paint_black far, lower, outer⟩) (.inr underBlack)
  | black => exact balanced_plug around.2 (Shape.balanced_black.mpr ⟨lower, outer⟩) (.inl Shape.color_join)

/-- Where a black node was that has one child at most, that child is a black node short. -/
theorem Around.shortAt_only {gone : Nat} {far : Shape} (around : trail.Around rank)
    (balanced : (Shape.join side .black gone .leaf far).Balanced rank) : trail.ShortAt far 0 := by
  obtain ⟨below, rfl, atLeaf, farBalanced⟩ := balanced.below_black
  obtain rfl : below = 0 := atLeaf
  constructor
  · exact around
  · cases shown : far.color with
    | black => exact .inl ⟨rfl, farBalanced⟩
    | red => exact .inr ⟨rfl, farBalanced.paint_black shown⟩

/-- A shortage at the root is none, and one at a red node is painted away. -/
theorem ShortAt.blackened (shortage : trail.ShortAt hole rank)
    (ends : trail = top ∨ hole.color = .red) :
    ∃ total, (trail.plug (hole.paint .black)).Balanced total ∧
      (trail.plug (hole.paint .black)).color = .black := by
  rcases shortage.short with ⟨black, balanced⟩ | ⟨red, balanced⟩
  · obtain rfl : trail = top := ends.resolve_right fun red => by rw [black] at red; cases red
    rw [Shape.paint_own hole black]
    exact ⟨rank, balanced, black⟩
  · exact balanced_plug shortage.around balanced (.inl (Shape.color_paint_black hole))

end Trail

namespace Tree
variable {α : Type} {tree : Tree α} {trail : Trail} {near far hole : Shape} {side : Side} {hue : Color}
  {slot : Nat}

/-- The parent at a place, which the sentinel's record names if the place is empty. -/
theorem Linked.parent_at (linked : tree.Linked (trail.plug hole))
    (scratch : hole = .leaf → tree.sentinel.parent = trail.parent) :
    tree.parent hole.link = .ok trail.parent := by
  cases hole with
  | leaf => exact congrArg Except.ok (scratch rfl)
  | node own left slot right => exact linked.parent_eq rfl

/-- What hangs on the two sides of a node tells the sides apart. -/
theorem Linked.link_ne_sibling {sibling : Shape} {above : Trail}
    (linked : tree.Linked ((Trail.under side hue slot sibling above).plug hole))
    (present : hole = .leaf → sibling ≠ .leaf) : hole.link ≠ sibling.link := by
  intro same
  cases hole with
  | leaf => exact present rfl (Shape.link_eq_none.mp same.symm)
  | node own left inner right =>
    have shared : inner ∈ sibling.slots := Shape.mem_slots_of_link same.symm
    exact linked.apart.2.2 inner (by simp [Shape.slots]) (by simp [Trail.slots, shared])

theorem Linked.join_child_eq (linked : tree.Linked (trail.plug (.join side hue slot near far))) :
    tree.child side (some slot) = .ok near.link ∧
      tree.child side.opposite (some slot) = .ok far.link :=
  linked.down.child_eq

theorem Linked.join_color_eq (linked : tree.Linked (trail.plug (.join side hue slot near far)))
    (black : tree.sentinel.color = .black) :
    tree.color near.link = .ok near.color ∧ tree.color far.link = .ok far.color := by
  have atNear := linked.down
  exact ⟨atNear.color_eq black, (Trail.plug_sibling ▸ atNear).color_eq black⟩

end Tree

namespace Relink
variable {α : Type} {tree : Tree α} {trail above : Trail} {hole sibling near far : Shape}
  {side : Side} {hue : Color} {slot parent rank : Nat}

/-- A red sibling is rotated above the parent, which becomes red. -/
theorem blackSibling_safe (linked : tree.Linked ((Trail.under side hue parent sibling above).plug hole))
    (sentinel : tree.sentinel.color = .black)
    (scratch : hole = .leaf → tree.sentinel.parent = some parent)
    (around : (Trail.under side hue parent sibling above).Around (rank + 1)) :
    Safe (blackSibling side hole.link (some parent)) tree fun answer after turns =>
      ∃ (hue' : Color) (sibling' : Shape) (above' : Trail), answer = sibling'.link ∧
        after.Linked ((Trail.under side hue' parent sibling' above').plug hole) ∧
        ((Trail.under side hue' parent sibling' above').plug hole).slots =
          ((Trail.under side hue parent sibling above).plug hole).slots ∧
        tree.Kept after ∧ sibling'.color = .black ∧
        (Trail.under side hue' parent sibling' above').Around (rank + 1) ∧
        (turns = 0 ∧ above'.length = above.length ∨
          turns = 1 ∧ hue' = .red ∧ above'.length = above.length + 1) := by
  unfold blackSibling
  refine look_then linked.child_eq.2 ?_
  refine look_then ((Trail.plug_sibling ▸ linked).color_eq sentinel) ?_
  split
  · rename_i red
    obtain ⟨own, near, far, rfl, nearBlack, farBlack, nearBalanced, farBalanced⟩ :=
      around.sibling_balanced.red_node red side
    have black : hue = .black := by
      cases hue with
      | red => exact absurd (around.1.symm.trans red) (by simp)
      | black => rfl
    subst black
    rw [Trail.plug_sibling] at linked
    rw [Shape.link_join]
    apply (paintNode_still linked).andThen
    rintro _ first ⟨atSibling, keptFirst⟩
    rw [← Trail.plug_sibling] at atSibling
    apply (paintNode_still atSibling.up).andThen
    rintro _ second ⟨atParent, keptSecond⟩
    apply (rotate_safe atParent).andCount
    rintro _ third _ ⟨rfl, turned, keptThird⟩
    have kept := (keptFirst.trans keptSecond).trans keptThird
    have atHole : third.Linked ((Trail.under side .red parent near
      (.under side .black own far above)).plug hole) := turned
    refine look_then (b := some parent)
      (atHole.parent_at fun empty => kept.sentinel ▸ scratch empty) ?_
    refine .look atHole.child_eq.2 ?_
    refine ⟨.red, near, .under side .black own far above, rfl, atHole, ?_, kept, nearBlack,
      ⟨nearBlack, nearBalanced, rfl, farBalanced, around.2⟩, .inr ⟨rfl, rfl, rfl⟩⟩
    exact Trail.slots_plug_congr above (Shape.slots_rotate ..)
  · rename_i notRed
    have siblingBlack : sibling.color = .black := Color.ne_red.mp notRed
    exact .pure ⟨hue, sibling, above, rfl, linked, rfl, .refl tree, siblingBlack, around, .inl ⟨rfl, rfl⟩⟩

/-- The question about the children changes nothing. -/
theorem childrenBlack_still
    (linked : tree.Linked (trail.plug (.join side hue slot near far)))
    (sentinel : tree.sentinel.color = .black) :
    Still (childrenBlack (some slot)) tree fun answer after =>
      after = tree ∧ (answer = true ↔ near.color = .black ∧ far.color = .black) := by
  obtain ⟨left, right, isLeft, isRight, leftColor, rightColor, both⟩ :
      ∃ left right : Shape, tree.child .left (some slot) = .ok left.link ∧
        tree.child .right (some slot) = .ok right.link ∧
        tree.color left.link = .ok left.color ∧ tree.color right.link = .ok right.color ∧
        (left.color = .black ∧ right.color = .black ↔ near.color = .black ∧ far.color = .black) := by
    obtain ⟨isNear, isFar⟩ := linked.join_child_eq
    obtain ⟨nearColor, farColor⟩ := linked.join_color_eq sentinel
    cases side with
    | left => exact ⟨near, far, isNear, isFar, nearColor, farColor, Iff.rfl⟩
    | right => exact ⟨far, near, isFar, isNear, farColor, nearColor, and_comm⟩
  unfold childrenBlack
  refine look_then isLeft ?_
  refine look_then leftColor ?_
  split
  · rename_i leftBlack
    refine look_then isRight ?_
    refine look_then rightColor ?_
    exact .pure ⟨rfl, rfl, by simp [← both, leftBlack]⟩
  · rename_i leftRed
    exact .pure ⟨rfl, rfl, by simp [← both, leftRed]⟩

/-- Of a black sibling's children one is red; a rotation puts it on the outside. -/
theorem redOuterChild_safe
    (linked : tree.Linked
      ((Trail.under side hue parent (.join side .black slot near far) above).plug hole))
    (sentinel : tree.sentinel.color = .black)
    (scratch : hole = .leaf → tree.sentinel.parent = some parent)
    (oneRed : ¬ (near.color = .black ∧ far.color = .black))
    (nearBalanced : near.Balanced rank) (farBalanced : far.Balanced rank) :
    Safe (redOuterChild side hole.link (some slot)) tree fun answer after turns => turns ≤ 1 ∧
      ∃ (slot' : Nat) (near' far' : Shape), answer = some slot' ∧
        after.Linked ((Trail.under side hue parent (.join side .black slot' near' far') above).plug hole) ∧
        (Shape.join side .black slot' near' far').slots = (Shape.join side .black slot near far).slots ∧
        tree.Kept after ∧ far'.color = .red ∧ near'.Balanced rank ∧ far'.Balanced rank := by
  have atSibling := linked
  rw [Trail.plug_sibling] at atSibling
  unfold redOuterChild
  refine look_then atSibling.join_child_eq.2 ?_
  refine look_then (atSibling.join_color_eq sentinel).2 ?_
  split
  · rename_i farBlack
    have nearRed : near.color = .red := Color.ne_black.mp fun nearBlack => oneRed ⟨nearBlack, farBlack⟩
    obtain ⟨own, outside, inside, rfl, outsideBlack, insideBlack, outsideBalanced, insideBalanced⟩ :=
      nearBalanced.red_node nearRed side
    apply look_then atSibling.join_child_eq.1
    rw [Shape.link_join]
    apply (paintNode_still atSibling.down).andThen
    rintro _ first ⟨atInner, keptFirst⟩
    rw [Trail.plug] at atInner
    apply (paintNode_still atInner).andThen
    rintro _ second ⟨painted, keptSecond⟩
    rw [← Shape.join_opposite, ← Shape.join_opposite inside] at painted
    apply (rotate_safe painted).andCount
    rintro _ third _ ⟨rfl, turned, keptThird⟩
    have kept := (keptFirst.trans keptSecond).trans keptThird
    rw [← Trail.plug_sibling, Shape.join_opposite, Shape.join_opposite] at turned
    refine look_then (b := some parent)
      (turned.parent_at fun empty => kept.sentinel ▸ scratch empty) ?_
    refine .look turned.child_eq.2 ?_
    exact ⟨Nat.le_refl 1, own, outside, .join side .red slot inside far, Shape.link_join, turned,
      (Shape.slots_rotate ..).symm, kept, Shape.color_join, outsideBalanced,
      Shape.balanced_red.mpr ⟨insideBlack, farBlack, insideBalanced, farBalanced⟩⟩
  · rename_i farNotBlack
    have farRed : far.color = .red := Color.ne_black.mp farNotBlack
    exact .pure ⟨Nat.zero_le 1, slot, near, far, rfl, linked, rfl, .refl tree, farRed, nearBalanced, farBalanced⟩

/-- A sibling with two black children is painted red, and the parent is next. -/
theorem paintSibling_still
    (linked : tree.Linked
      ((Trail.under side hue parent (.join side .black slot near far) above).plug hole))
    (scratch : hole = .leaf → tree.sentinel.parent = some parent) :
    Still (do
        setColor (some slot) .red
        look (·.parent hole.link) : Relink α Link) tree fun answer after =>
      answer = some parent ∧ tree.Kept after ∧
        after.Linked (above.plug (.join side hue parent hole (.join side .red slot near far))) := by
  have atSibling := linked
  rw [Trail.plug_sibling] at atSibling
  apply (paintNode_still atSibling).andThen
  rintro _ after ⟨painted, kept⟩
  rw [← Trail.plug_sibling] at painted
  exact .look (painted.parent_at fun empty => kept.sentinel ▸ scratch empty) ⟨rfl, rfl, kept, painted⟩

/-- With a red outer child the sibling takes the parent's place and colour, and
the shortage is over. -/
theorem replaceParent_safe
    (linked : tree.Linked
      ((Trail.under side hue parent (.join side .black slot near far) above).plug hole))
    (sentinel : tree.sentinel.color = .black)
    (scratch : hole = .leaf → tree.sentinel.parent = some parent) (farRed : far.color = .red) :
    Safe (do
        let parent ← look (·.parent hole.link)
        let outer ← look (·.child side.opposite (some slot))
        setColor (some slot) (← look (·.color parent))
        setColor parent .black
        setColor outer .black
        rotate side parent
        return (← current).root : Relink α Link) tree fun answer after turns => turns = 1 ∧
      answer = after.root ∧ tree.Kept after ∧
        after.Linked (above.plug (.join side hue slot (.join side .black parent hole near)
          (far.paint .black))) := by
  obtain ⟨farSlot, farNamed⟩ := Shape.exists_link_of_red farRed
  have atSibling := linked
  rw [Trail.plug_sibling] at atSibling
  apply look_then (b := some parent) (linked.parent_at scratch)
  apply look_then atSibling.join_child_eq.2
  apply look_then (linked.parent_color_eq sentinel)
  apply (paintNode_still atSibling).andThen
  rintro _ first ⟨done, keptFirst⟩
  rw [← Trail.plug_sibling] at done
  apply (paintNode_still done.up).andThen
  rintro _ second ⟨done, keptSecond⟩
  rw [← Shape.join_opposite] at done
  apply (setColor_still (show second.Linked ((Trail.under side.opposite hue slot near
    (.under side.opposite .black parent hole above)).plug far) by
      rwa [Trail.plug, Shape.join_opposite]) rfl (by simp [farNamed])).andThen
  rintro _ third ⟨done, keptThird⟩
  rw [Trail.plug, Trail.plug, Shape.join_opposite, Shape.join_opposite] at done
  apply (rotate_safe done).andCount
  rintro _ fourth _ ⟨rfl, turned, keptFourth⟩
  apply current_then
  exact .pure ⟨rfl, rfl, ((keptFirst.trans keptSecond).trans keptThird).trans keptFourth, turned⟩

/-- What one round of the repair leaves: the shortage at a node that is nearer to
the root or red, after three rotations at most, and a rotation only at the end. -/
def ShortRound (tree : Tree α) (trail : Trail) (hole : Shape) (answer : Link)
    (after : Tree α) (turns : Nat) : Prop :=
  ∃ (trail' : Trail) (hole' : Shape) (rank : Nat), answer = hole'.link ∧ hole' ≠ .leaf ∧
    after.Linked (trail'.plug hole') ∧ (trail'.plug hole').slots = (trail.plug hole).slots ∧
    tree.Kept after ∧ trail'.ShortAt hole' rank ∧
    (hole'.color = .red ∨ trail'.length < trail.length) ∧ turns ≤ 3 ∧
    (turns = 0 ∨ hole'.color = .red ∨ trail' = .top)

theorem repairShortStep_safe
    (linked : tree.Linked ((Trail.under side hue parent sibling above).plug hole))
    (sentinel : tree.sentinel.color = .black)
    (scratch : hole = .leaf → tree.sentinel.parent = some parent) (black : hole.color = .black)
    (shortage : (Trail.under side hue parent sibling above).ShortAt hole rank) :
    Safe (repairShortStep hole.link) tree
      (ShortRound tree (.under side hue parent sibling above) hole) := by
  obtain ⟨around, short⟩ := shortage
  have holeBalanced : hole.Balanced rank := by
    rcases short with ⟨-, balanced⟩ | ⟨red, -⟩
    · exact balanced
    · exact absurd (black.symm.trans red) (by simp)
  have notSibling : hole.link ≠ sibling.link := by
    apply linked.link_ne_sibling
    rintro - rfl
    cases around.sibling_balanced
  unfold repairShortStep
  refine look_then (b := some parent) (linked.parent_at scratch) ?_
  obtain ⟨left, isLeft, isSide⟩ := linked.side_eq rfl notSibling
  refine look_then isLeft ?_
  simp only [isSide]
  refine (blackSibling_safe linked sentinel scratch around).andCount ?_
  rintro _ first turns ⟨hue', sibling', above', rfl, linked', sameSlots, keptFirst, siblingBlack,
    around', few⟩
  obtain ⟨slot, near, far, rfl, nearBalanced, farBalanced⟩ :=
    around'.sibling_balanced.black_node siblingBlack side
  have sentinel' : first.sentinel.color = .black := keptFirst.sentinel ▸ sentinel
  have scratch' : hole = .leaf → first.sentinel.parent = some parent :=
    fun empty => keptFirst.sentinel ▸ scratch empty
  have atSibling := linked'
  rw [Trail.plug_sibling] at atSibling
  simp only [Shape.link_join]
  refine (childrenBlack_still atSibling sentinel').andThen ?_
  rintro answer _ ⟨rfl, bothBlack⟩
  split
  · rename_i yes
    obtain ⟨nearBlack, farBlack⟩ := bothBlack.mp yes
    refine (paintSibling_still linked' scratch').weaken ?_
    rintro _ after _ ⟨rfl, rfl, kept, painted⟩
    obtain ⟨rank', short'⟩ := around'.short_above holeBalanced nearBlack farBlack
    refine ⟨above', .join side hue' parent hole (.join side .red slot near far), rank',
      Shape.link_join.symm, ?_, painted, ?_, keptFirst.trans kept, short', ?_, ?_, ?_⟩
    · exact Shape.join_ne_leaf
    · exact (Trail.slots_plug_congr above' (Shape.slots_join_congr rfl
        (Shape.slots_join_congr rfl rfl))).trans sameSlots
    · rw [Shape.color_join, Trail.length]
      rcases few with ⟨-, same⟩ | ⟨-, red, -⟩
      · exact .inr (by omega)
      · exact .inl red
    · omega
    · rw [Shape.color_join]
      rcases few with ⟨none, -⟩ | ⟨-, red, -⟩
      · exact .inl none
      · exact .inr (.inl red)
  · rename_i no
    have oneRed : ¬ (near.color = .black ∧ far.color = .black) := fun both => no (bothBlack.mpr both)
    refine (redOuterChild_safe linked' sentinel' scratch' oneRed nearBalanced farBalanced).andCount ?_
    rintro _ second more ⟨few', slot', near', far', rfl, linked'', sameSlots', keptSecond, farRed,
      nearBalanced', farBalanced'⟩
    refine (replaceParent_safe linked'' (keptSecond.sentinel ▸ sentinel')
      (fun empty => keptSecond.sentinel ▸ scratch' empty) farRed).weaken ?_
    rintro _ after _ ⟨rfl, rfl, keptThird, replaced⟩
    obtain ⟨total, balanced, isBlack⟩ := around'.replaced slot' holeBalanced farRed nearBalanced'
      farBalanced'
    refine ⟨.top, _, total, replaced.root, ?_, replaced, ?_, (keptFirst.trans keptSecond).trans keptThird,
      ⟨trivial, .inl ⟨isBlack, balanced⟩⟩, .inr (Nat.succ_pos _), ?_, .inr (.inr rfl)⟩
    · intro empty
      have inside : slot' ∈ (above'.plug (.join side hue' slot' (.join side .black parent hole near')
        (far'.paint .black))).slots := by simp
      rw [empty] at inside
      cases inside
    · refine Eq.trans ?_ sameSlots
      have turned : (Shape.join side hue' slot' (.join side .black parent hole near') far').slots =
          (Shape.join side hue' parent hole (.join side .black slot near far)).slots :=
        (Shape.slots_rotate _ _ .black hue').trans (Shape.slots_join_congr rfl sameSlots')
      exact Trail.slots_plug_congr above' ((Shape.slots_join_congr rfl (Shape.slots_paint far')).trans turned)
    · omega

/-- The repair loop ends with the shortage at the root or at a red node. -/
theorem repairShortFrom_safe (rounds : Nat) {link : Link} (linked : tree.Linked (trail.plug hole))
    (named : hole.link = link) (sentinel : tree.sentinel.color = .black)
    (scratch : hole = .leaf → tree.sentinel.parent = trail.parent) (shortage : trail.ShortAt hole rank)
    (enough : trail.length < rounds ∨ hole.color = .red ∧ 0 < rounds) :
    Safe (repairShortFrom rounds link) tree fun answer after turns =>
      turns ≤ 3 ∧ (trail = .top ∨ hole.color = .red → turns = 0) ∧
      ∃ (trail' : Trail) (hole' : Shape) (rank' : Nat), answer = hole'.link ∧
        after.Linked (trail'.plug hole') ∧ (trail'.plug hole').slots = (trail.plug hole).slots ∧
        tree.Kept after ∧ trail'.ShortAt hole' rank' ∧ (trail' = .top ∨ hole'.color = .red) := by
  induction rounds generalizing tree trail hole rank link with
  | zero => omega
  | succ rounds ih =>
    subst named
    unfold repairShortFrom
    refine current_then (look_then (linked.color_eq sentinel) ?_)
    split
    · rename_i goesOn
      obtain ⟨notRoot, black⟩ := goesOn
      cases trail with
      | top => exact absurd linked.root.symm notRoot
      | under side hue parent sibling above =>
        refine (repairShortStep_safe linked sentinel scratch black shortage).andCount ?_
        rintro _ middle turns ⟨trail', hole', rank', rfl, notLeaf, linked', sameSlots, kept, shortage',
          nearer, few, round⟩
        have enough' : trail'.length < rounds ∨ hole'.color = .red ∧ 0 < rounds := by
          have within : above.length + 1 < rounds + 1 := enough.resolve_right fun red =>
            absurd (black.symm.trans red.1) (by simp)
          simp only [Trail.length] at nearer
          rcases nearer with red | nearer
          · exact .inr ⟨red, by omega⟩
          · exact .inl (by omega)
        refine (ih linked' rfl (kept.sentinel ▸ sentinel) (absurd · notLeaf) shortage' enough').weaken ?_
        rintro _ after more ⟨few', none, trail'', hole'', rank'', named, linked'', sameSlots', kept', shortage'',
          ends⟩
        refine ⟨?_, ?_, trail'', hole'', rank'', named, linked'', sameSlots'.trans sameSlots, kept.trans kept',
          shortage'', ends⟩
        · rcases round with rfl | isRed | isTop
          · omega
          · have := none (.inr isRed)
            omega
          · have := none (.inl isTop)
            omega
        · rintro (impossible | red)
          · cases impossible
          · exact absurd (black.symm.trans red) (by simp)
    · rename_i stays
      refine .pure ⟨Nat.zero_le 3, fun _ => rfl, trail, hole, rank, rfl, linked, rfl, .refl tree, shortage, ?_⟩
      by_cases top : trail = .top
      · exact .inl top
      · have notRoot : hole.link ≠ tree.root :=
          linked.root ▸ (Trail.link_plug_ne top linked.distinct).symm
        exact .inr (Color.ne_black.mp fun black => stays ⟨notRoot, black⟩)

/-- The repair puts a whole in order again in which the ways through one place
are a black node short. -/
theorem repairShort_safe (linked : tree.Linked (trail.plug hole)) (sentinel : tree.sentinel.color = .black)
    (scratch : hole = .leaf → tree.sentinel.parent = trail.parent) (shortage : trail.ShortAt hole rank) :
    Safe (repairShort hole.link) tree fun _ after turns => turns ≤ 3 ∧
      ∃ (whole : Shape) (total : Nat), after.Linked whole ∧ whole.slots = (trail.plug hole).slots ∧
        tree.Kept after ∧ whole.Balanced total ∧ whole.color = .black := by
  unfold repairShort
  apply current_then
  refine (repairShortFrom_safe tree.stepLimit linked rfl sentinel scratch shortage (.inl linked.trail_lt)).andCount ?_
  rintro _ middle turns ⟨few, -, trail', hole', rank', rfl, linked', sameSlots, kept, shortage', ends⟩
  refine (setColor_still linked' rfl fun _ => ⟨rfl, kept.sentinel ▸ sentinel⟩).weaken ?_
  rintro _ after _ ⟨rfl, painted, kept'⟩
  obtain ⟨total, balanced, black⟩ := shortage'.blackened ends
  refine ⟨few, _, total, painted, ?_, kept.trans kept', balanced, black⟩
  exact (Trail.slots_plug_congr trail' (Shape.slots_paint hole')).trans sameSlots

end Relink

end Containers
