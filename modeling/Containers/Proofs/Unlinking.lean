import Containers.Proofs.EraseRepair
import Containers.Proofs.Invariant

/-! Unlinking a node. The node that leaves the shape has one child at most, which
takes its place; a value that was filed in another node goes with it, so the
order loses that one value only. -/
namespace Containers

/-- The slot that leaves a shape when the value in `slot` does: `slot` itself, or
the first slot on its right if there are nodes on both sides. -/
def Shape.departing (left : Shape) (slot : Nat) (right : Shape) : Nat :=
  match left, right with
  | .node .., .node .. => right.slots.headD slot
  | _, _ => slot

/-- A node without a child on one side leaves the order to the others. -/
theorem Trail.slots_vacated (trail : Trail) (side : Side) (hue : Color) (gone : Nat) (far : Shape) :
    ∃ front back, (trail.plug (.join side hue gone .leaf far)).slots = front ++ gone :: back ∧
      (trail.plug far).slots = front ++ back := by
  cases side with
  | left => exact ⟨trail.before, far.slots ++ trail.after, by simp [slots_plug, Shape.join, Shape.slots],
      by simp [slots_plug]⟩
  | right => exact ⟨trail.before ++ far.slots, trail.after, by simp [slots_plug, Shape.join, Shape.slots],
      by simp [slots_plug]⟩

/-- The departing slot comes next in order, if it is another one. -/
theorem Shape.departing_next {left right : Shape} {slot gone : Nat} (isGone : gone = departing left slot right)
    (other : gone ≠ slot) : ∃ rest, right.slots = gone :: rest := by
  cases left with
  | leaf => exact absurd isGone other
  | node =>
    cases right with
    | leaf => exact absurd isGone other
    | node hue inner lower outer =>
      cases slots : (Shape.node hue inner lower outer).slots with
      | nil => simp [Shape.slots] at slots
      | cons head rest =>
        rw [departing, slots] at isGone
        exact ⟨rest, by rw [isGone]; rfl⟩

namespace Relink
variable {α : Type} {tree : Tree α} {trail : Trail} {left right far : Shape} {side : Side} {hue : Color}
  {slot gone a b : Nat}

theorem departing_still (linked : tree.Linked (trail.plug (.node hue left slot right))) :
    Still (departing slot) tree fun gone after => after = tree ∧ gone = Shape.departing left slot right ∧
      ∃ trail' side hue' far,
        trail.plug (.node hue left slot right) = Trail.plug trail' (.join side hue' gone .leaf far) := by
  obtain ⟨atLeft, atRight⟩ := linked.children
  unfold departing
  refine look_then atLeft.child_eq.1 (look_then atRight.child_eq.1 ?_)
  cases left with
  | leaf => exact .pure ⟨rfl, rfl, rfl, trail, .left, hue, right, rfl⟩
  | node leftHue a b c =>
    cases right with
    | leaf => exact .pure ⟨rfl, rfl, rfl, trail, .right, hue, .node leftHue a b c, rfl⟩
    | node rightHue inner lower outer =>
      obtain ⟨trail', hue', slot', far, ends, same, -⟩ := Tree.outermost_eq .left atRight rfl
      obtain ⟨head, rest, ends', slots⟩ := Tree.outermost_left atRight rfl
      obtain rfl : slot' = head := Except.ok.inj (ends.symm.trans ends')
      refine .look ends ⟨rfl, rfl, ?_, trail', .left, hue', far, same⟩
      rw [Shape.departing, slots]
      rfl

theorem onlyChild_still (linked : tree.Linked (trail.plug (.join side hue slot .leaf far))) :
    Still (onlyChild slot) tree fun orphan after => after = tree ∧ orphan = far.link := by
  obtain ⟨near, beyond⟩ := linked.join_child_eq
  unfold onlyChild
  cases side with
  | left =>
    refine look_then near ?_
    simp only [Shape.link, ne_eq, not_true_eq_false, ↓reduceIte]
    exact .look beyond ⟨rfl, rfl, rfl⟩
  | right =>
    refine look_then beyond ?_
    split
    · exact .pure ⟨rfl, rfl, rfl⟩
    · rename_i missing
      exact .look near ⟨rfl, rfl, (not_not.mp missing).symm⟩

/-- What is left when a node gave its place to its only child: where there is no
child, the sentinel's record names the parent. -/
structure Bypassed (tree : Tree α) (trail : Trail) (gone : Nat) (far : Shape) (after : Tree α) : Prop where
  linked : after.Linked (trail.plug far)
  engine : after.nodes.engine = tree.nodes.engine
  values : after.values = tree.values
  own : after.record (some gone) = tree.record (some gone)
  sentinel : after.sentinel.color = tree.sentinel.color
  scratch : far = .leaf → after.sentinel.parent = trail.parent

theorem bypass_still (linked : tree.Linked (trail.plug (.join side hue gone .leaf far))) :
    Still (bypass gone) tree fun orphan after =>
      orphan = far.link ∧ Bypassed tree trail gone far after := by
  unfold bypass
  refine (onlyChild_still linked).andThen ?_
  rintro orphan _ ⟨rfl, rfl⟩
  refine look_then (linked.parent_eq Shape.link_join) ?_
  obtain ⟨distinct, trailDistinct, apart⟩ := linked.apart
  simp only [Shape.nodup_join, Shape.mem_slots_join] at distinct apart
  obtain ⟨trailHolds, holds⟩ := linked.parts
  have farHolds := (Shape.holds_join.mp holds).2.2
  have farApart : ∀ slot ∈ trail.slots, some slot ≠ far.link := fun slot inside =>
    Shape.link_ne fun member => apart slot (.inr (.inr member)) inside
  have farLive : Tree.Live _ far.link := (Trail.plug_sibling ▸ linked.down).live_link
  refine (setParent_still farLive trail.parent).andThen fun _ told toldDone => ?_
  have above : trail.Holds told.record (some gone) := by
    rw [toldDone.record]
    rw [Shape.link_join] at trailHolds
    exact trailHolds.congr fun slot inside => Records.change_other (farApart slot inside)
  have below : far.Holds told.record trail.parent := by
    rw [toldDone.record]
    exact farHolds.reparent distinct.2.2.2.1 trail.parent
  refine (redirect_still above (apart gone (.inl rfl)) (toldDone.live linked.live_parent) far.link).andThen
    fun _ after done => ?_
  have engine := done.engine.trans toldDone.engine
  have values := done.values.trans toldDone.values
  have sentinel : after.sentinel = told.record none := by
    have atNone := congrFun done.record none
    rwa [Trail.rehang_none] at atNone
  refine .pure ⟨rfl, rfl, ?_, engine, values, ?_, ?_, ?_⟩
  · refine replanted linked (by rwa [Shape.link_join]) below (fun slot => congrFun done.record _) ?_ ?_ ?_
    · rw [done.root, toldDone.root]
    · exact Trail.nodup_plug.mpr ⟨distinct.2.2.2.1, trailDistinct, fun slot inside => apart slot (.inr (.inr inside))⟩
    · intro slot inside
      rw [← Tree.size_values, values, Tree.size_values]
      refine linked.live slot ?_
      simp only [Trail.mem_slots_plug, Shape.mem_slots_join] at inside ⊢
      exact inside.imp_left fun member => .inr (.inr member)
  · have outside : ∀ slot ∈ trail.slots, some gone ≠ some slot := fun slot inside same =>
      apart slot (.inl (Option.some.inj same).symm) inside
    rw [done.record, Trail.rehang_other outside, toldDone.record,
      Records.change_other (Shape.link_ne distinct.2.1)]
  · rw [sentinel, toldDone.record, Records.change]
    split
    · rename_i missing
      rw [← missing]
      rfl
    · rfl
  · rintro rfl
    rw [sentinel, toldDone.record, Shape.link, Records.change_same]
    rfl

/-- Two nodes have exchanged their values. -/
structure Swapped (tree : Tree α) (a b : Nat) (after : Tree α) : Prop where
  record : after.record = tree.record
  root : after.root = tree.root
  engine : after.nodes.engine = tree.nodes.engine
  size : after.size = tree.size
  values : ∀ slot, after.values[slot]? =
    if slot = b then tree.values[a]? else if slot = a then tree.values[b]? else tree.values[slot]?

theorem swapValues_still (liveA : a < tree.size) (liveB : b < tree.size) :
    Still (swapValues a b) tree fun _ after => Swapped tree a b after := by
  have boundA : a < tree.nodes.items.size := liveA
  have boundB : b < tree.nodes.items.size := liveB
  have atA := Array.getElem?_eq_getElem boundA
  have atB := Array.getElem?_eq_getElem boundB
  have exchanged : tree.enact (.values a b) = .ok { tree with
      nodes.items := (tree.nodes.items.setIfInBounds a ⟨tree.nodes.items[a].links, tree.nodes.items[b].value⟩)
        |>.setIfInBounds b ⟨tree.nodes.items[b].links, tree.nodes.items[a].value⟩ } := by
    simp only [Tree.enact, Tree.exchange, Tree.nodeAt, atA, atB]
    rfl
  refine step_safe exchanged trivial
    ⟨rfl, funext fun link => ?_, rfl, rfl, by simp [Tree.size, Storage.size], fun slot => ?_⟩
  · cases link with
    | none => rfl
    | some slot =>
      simp only [Tree.record, Array.getElem?_setIfInBounds, Array.size_setIfInBounds]
      by_cases isB : b = slot
      · subst isB
        simp [boundB]
      · by_cases isA : a = slot
        · subst isA
          simp [isB, boundA]
        · simp [isA, isB]
  · simp only [Tree.values_eq, Array.getElem?_setIfInBounds, Array.size_setIfInBounds]
    by_cases isB : slot = b
    · subst isB
      simp [boundA, boundB]
    · by_cases isA : slot = a
      · subst isA
        simp [isB, Ne.symm isB, boundA, boundB]
      · simp [isA, isB, Ne.symm isA, Ne.symm isB]

theorem Swapped.refl (tree : Tree α) (slot : Nat) : Swapped tree slot slot tree :=
  ⟨rfl, rfl, rfl, rfl, fun other => by split <;> simp_all⟩

/-- The repair at the place that a node left, where its only child hangs now. -/
theorem mend_safe (linked : tree.Linked (trail.plug far)) (live : gone < tree.size)
    (sentinel : tree.sentinel.color = .black) (scratch : far = .leaf → tree.sentinel.parent = trail.parent)
    (color : (tree.record (some gone)).color = hue) {rank : Nat} (around : trail.Around rank)
    (balanced : (Shape.join side hue gone .leaf far).Balanced rank) :
    Safe (mend gone far.link) tree fun _ after _ =>
      ∃ (whole : Shape) (total : Nat), after.Linked whole ∧ whole.slots = (trail.plug far).slots ∧
        after.nodes.engine = tree.nodes.engine ∧ after.values = tree.values ∧ after.sentinel = .sentinel ∧
        whole.Balanced total ∧ whole.color = .black := by
  have isLive : tree.Live (some gone) := fun _ same => Option.some.inj same ▸ live
  unfold mend
  refine look_then (Tree.color_eq isLive) ?_
  rw [color]
  cases hue with
  | black =>
    simp only [↓reduceIte]
    refine (repairShort_safe linked sentinel scratch (around.shortAt_only balanced)).andCount ?_
    rintro _ middle _ ⟨-, whole, total, linked', slots, kept, balanced', black⟩
    refine step_safe rfl trivial ?_
    exact ⟨whole, total, linked'.resentinel _, slots, kept.engine, kept.values, rfl, balanced', black⟩
  | red =>
    obtain ⟨-, farBlack, atLeaf, farBalanced⟩ := Shape.balanced_red.mp balanced
    obtain ⟨total, balanced', black⟩ := Trail.balanced_plug around farBalanced (.inl farBlack)
    simp only [reduceCtorEq, ↓reduceIte]
    refine step_safe rfl trivial ?_
    exact ⟨_, total, linked.resentinel _, rfl, rfl, rfl, rfl, balanced', black⟩

/-- What is left when the value in `slot` was taken out of the order: the node in
`gone` belongs to the shape no longer and holds that value. -/
structure Unlinked (tree : Tree α) (shape : Shape) (slot gone : Nat) (whole : Shape) (after : Tree α) :
    Prop where
  linked : after.Linked whole
  engine : after.nodes.engine = tree.nodes.engine
  size : after.size = tree.size
  sentinel : after.sentinel = .sentinel
  black : whole.color = .black
  balanced : ∃ rank, whole.Balanced rank
  slots : shape.slots.Perm (gone :: whole.slots)
  values : ∀ other, after.values[other]? =
    if other = gone then tree.values[slot]? else if other = slot then tree.values[gone]? else tree.values[other]?
  listing : ∃ front x back, tree.values[slot]? = some x ∧ tree.listing shape.slots = front ++ x :: back ∧
    after.listing whole.slots = front ++ back

/-- The order loses the value that was in `slot`, and no other. -/
theorem listing_unlinked {after : Tree α} {shape whole : Shape} {x : α} (linked : tree.Linked shape)
    (filled : tree.values[slot]? = some x)
    (values : ∀ other, after.values[other]? =
      if other = gone then tree.values[slot]? else if other = slot then tree.values[gone]? else tree.values[other]?)
    {front back : List Nat} (order : shape.slots = front ++ gone :: back) (left : whole.slots = front ++ back)
    (next : gone ≠ slot → ∃ before after, shape.slots = before ++ slot :: gone :: after) :
    ∃ before behind, tree.listing shape.slots = before ++ x :: behind ∧
      after.listing whole.slots = before ++ behind := by
  have distinct := linked.distinct
  have unmoved : ∀ slots : List Nat, gone ∉ slots → slot ∉ slots → after.listing slots = tree.listing slots := by
    intro slots notGone notSlot
    refine Tree.listing_congr fun other inside => ?_
    rw [values, if_neg fun same : other = gone => notGone (same ▸ inside),
      if_neg fun same : other = slot => notSlot (same ▸ inside)]
  rw [order, List.perm_middle.nodup_iff, List.nodup_cons, List.mem_append, not_or] at distinct
  obtain ⟨⟨goneFront, goneBack⟩, rest⟩ := distinct
  by_cases same : gone = slot
  · subst same
    refine ⟨tree.listing front, tree.listing back, ?_, ?_⟩
    · rw [order, Tree.listing_append, Tree.listing_cons filled]
    · rw [left, Tree.listing_append, unmoved _ goneFront goneFront, unmoved _ goneBack goneBack]
  · obtain ⟨before, behind, split⟩ := next same
    have inside : gone ∈ shape.slots := by simp [order]
    obtain ⟨y, filledGone⟩ := linked.filled inside
    have again : front ++ gone :: back = (before ++ [slot]) ++ gone :: behind := by
      rw [← order, split]
      simp
    obtain ⟨rfl, -, rfl⟩ := (List.append_cons_inj_of_notMem goneFront goneBack).mp again
    have slotNow : after.values[slot]? = some y := by
      rw [values, if_neg (Ne.symm same), if_pos rfl, filledGone]
    simp only [List.append_assoc, List.singleton_append, List.perm_middle.nodup_iff, List.nodup_cons,
      List.mem_append, not_or] at rest goneFront
    refine ⟨tree.listing before, y :: tree.listing back, ?_, ?_⟩
    · rw [split, Tree.listing_append, Tree.listing_cons filled, Tree.listing_cons filledGone]
    · rw [left, List.append_assoc, List.singleton_append, Tree.listing_append, Tree.listing_cons slotNow,
        unmoved _ goneFront.1 rest.1.1, unmoved _ goneBack rest.1.2]

theorem unlink_safe (linked : tree.Linked (trail.plug (.node hue left slot right)))
    (sentinel : tree.sentinel = .sentinel) {total : Nat}
    (balanced : (trail.plug (.node hue left slot right)).Balanced total)
    (black : (trail.plug (.node hue left slot right)).color = .black) :
    Safe (unlink slot) tree fun gone after _ => gone = Shape.departing left slot right ∧
      ∃ whole, Unlinked tree (trail.plug (.node hue left slot right)) slot gone whole after := by
  have live : slot < tree.size := linked.live slot (by simp [Shape.slots])
  have order : (trail.plug (.node hue left slot right)).slots =
      trail.before ++ left.slots ++ slot :: (right.slots ++ trail.after) := by
    simp [Trail.slots_plug, Shape.slots]
  unfold unlink
  refine (departing_still linked).andThen ?_
  rintro gone _ ⟨same, isGone, trail', side, hue', far, place⟩
  obtain rfl := same.symm
  rw [place] at linked balanced black
  have goneLive := linked.live gone (by simp)
  refine (bypass_still linked).andThen ?_
  rintro _ vacated ⟨rfl, bypassed⟩
  obtain ⟨rank, around, inner, -⟩ := Trail.Around.of_plug balanced black
  have own := (Shape.holds_join.mp linked.parts.2).1
  have vacatedSize : vacated.size = tree.size := by
    rw [← Tree.size_values, bypassed.values, Tree.size_values]
  have rest : ∀ moved, Swapped vacated slot gone moved → Safe (do
      mend gone far.link
      return gone) moved fun gone after _ => gone = Shape.departing left slot right ∧
        ∃ whole, Unlinked tree (trail.plug (.node hue left slot right)) slot gone whole after := by
    intro moved swapped
    have atFar : moved.Linked (trail'.plug far) := by
      obtain ⟨root, holds, distinct, live⟩ := bypassed.linked
      exact ⟨swapped.root.trans root, by rwa [swapped.record], distinct, by rwa [swapped.size]⟩
    have atNone : moved.sentinel = vacated.sentinel := congrFun swapped.record none
    have color : (moved.record (some gone)).color = hue' := by
      rw [swapped.record, bypassed.own, own, Links.color_join]
    refine (mend_safe atFar (by rwa [swapped.size, vacatedSize]) (by rw [atNone, bypassed.sentinel, sentinel]; rfl)
      (fun empty => atNone ▸ bypassed.scratch empty) color around inner).andCount ?_
    rintro _ after _ ⟨whole, total, linked', slots, engine, values, resting, balanced', black'⟩
    obtain ⟨front, back, order', left'⟩ := Trail.slots_vacated trail' side hue' gone far
    rw [← place] at order' linked
    have inside : slot ∈ (trail.plug (.node hue left slot right)).slots := by simp [order]
    obtain ⟨x, filled⟩ := linked.filled inside
    have valuesNow : ∀ other, after.values[other]? = _ := fun other => by
      rw [values, swapped.values, bypassed.values]
    refine .pure ⟨isGone, whole, linked', ?_, ?_, resting, black', ⟨total, balanced'⟩, ?_, valuesNow, ?_⟩
    · rw [engine, swapped.engine, bypassed.engine]
    · rw [← Tree.size_values, values, Tree.size_values, swapped.size, vacatedSize]
    · rw [order', slots, left']
      exact List.perm_middle
    · obtain ⟨before, behind, listing, listing'⟩ :=
        listing_unlinked linked filled valuesNow order' (slots.trans left') fun other => by
          obtain ⟨rest, isNext⟩ := Shape.departing_next isGone other
          exact ⟨_, _, by rw [order, isNext, List.cons_append]⟩
      exact ⟨before, x, behind, filled, listing, listing'⟩
  split
  · refine (swapValues_still (vacatedSize ▸ live) (vacatedSize ▸ goneLive)).andThen ?_
    exact fun _ moved swapped => rest moved swapped
  · rename_i same
    obtain rfl : gone = slot := not_not.mp same
    exact rest vacated (.refl vacated gone)

end Relink

end Containers
