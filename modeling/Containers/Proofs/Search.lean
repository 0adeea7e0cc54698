import Containers.Proofs.Listing
import Containers.Proofs.Rotation
import Containers.Tree.Iter
import Mathlib.Data.List.Basic

/-! Walks along the links. A search goes down to the place where its key belongs,
the ends of the order are reached by going down on one side, and the next node
lies below on the right or above where the way last turned left. None of these
walks takes more steps than there are nodes. -/
namespace Containers

namespace Trail
variable {side : Side} {hue : Color} {slot : Nat} {sibling : Shape} {above : Trail}

/-- The side on which the place hangs; the root may be said to hang on any. -/
def sideOr (side : Side) : Trail → Side
  | top => side
  | under own _ _ _ _ => own

/-- The slots on one side of the place, in order. -/
def beside : Side → Trail → List Nat
  | .left, trail => trail.before
  | .right, trail => trail.after

theorem beside_under : (under side hue slot sibling above).beside side = above.beside side := by
  cases side <;> rfl

/-- Every slot of a shape stands at the end of a trail. -/
theorem exists_plug {shape : Shape} (inside : slot ∈ shape.slots) :
    ∃ trail hue left right, shape = plug trail (.node hue left slot right) := by
  suffices ∀ (trail : Trail) (hole : Shape), slot ∈ hole.slots →
      ∃ trail' hue left right, trail.plug hole = plug trail' (.node hue left slot right) from
    this top shape inside
  intro trail hole inside
  induction hole generalizing trail with
  | leaf => cases inside
  | node hue left own right ihl ihr =>
    simp only [Shape.slots, List.mem_append, List.mem_cons] at inside
    rcases inside with inside | rfl | inside
    · exact ihl (.under .left hue own right trail) inside
    · exact ⟨trail, hue, left, right, rfl⟩
    · exact ihr (.under .right hue own left trail) inside

/-- Every slot of a shape stands at the end of a trail, with what hangs on its two sides. -/
theorem exists_plug_join {shape : Shape} (side : Side) (inside : slot ∈ shape.slots) :
    ∃ trail hue near far, shape = plug trail (.join side hue slot near far) := by
  obtain ⟨trail, hue, left, right, rfl⟩ := exists_plug inside
  obtain ⟨near, far, seen⟩ := Shape.exists_join side hue left slot right
  exact ⟨trail, hue, near, far, by rw [seen]⟩

end Trail

namespace Tree
variable {α κ : Type} {tree : Tree α} {trail : Trail} {shape hole left right : Shape} {slot : Nat}
  {hue : Color} {x : α} {steps : Nat}

/-- The values in these slots, in this order. -/
def listing (tree : Tree α) (slots : List Nat) : List α :=
  slots.filterMap (tree.values[·]?)

theorem listing_append (first second : List Nat) :
    tree.listing (first ++ second) = tree.listing first ++ tree.listing second :=
  List.filterMap_append

theorem listing_cons (filled : tree.values[slot]? = some x) (rest : List Nat) :
    tree.listing (slot :: rest) = x :: tree.listing rest :=
  List.filterMap_cons_some filled

theorem listing_congr {other : Tree α} {slots : List Nat}
    (same : ∀ slot ∈ slots, tree.values[slot]? = other.values[slot]?) :
    tree.listing slots = other.listing slots :=
  List.filterMap_congr same

theorem values_eq (slot : Nat) : tree.values[slot]? = (tree.nodes.items[slot]?).map Node.value :=
  Array.getElem?_map

theorem value?_eq (slot : Nat) : tree.value? (some slot) = tree.values[slot]? := by
  rw [values_eq]; rfl

theorem keyAt_eq [Keyed α κ] (filled : tree.values[slot]? = some x) :
    tree.keyAt slot = .ok (Keyed.key x) := by
  rw [values_eq, Option.map_eq_some_iff] at filled
  obtain ⟨node, found, rfl⟩ := filled
  simp only [keyAt, nodeAt, found]
  rfl

/-- Every slot of the shape holds a value. -/
theorem Linked.filled (linked : tree.Linked shape) (inside : slot ∈ shape.slots) :
    ∃ x, tree.values[slot]? = some x :=
  ⟨_, Array.getElem?_eq_getElem (tree.size_values.symm ▸ linked.live slot inside)⟩

/-- A place as what hangs below a node on the left, and on the right. -/
theorem Linked.children (linked : tree.Linked (trail.plug (.node hue left slot right))) :
    tree.Linked ((Trail.under .left hue slot right trail).plug left) ∧
      tree.Linked ((Trail.under .right hue slot left trail).plug right) :=
  ⟨linked, linked⟩

/-- A subtree is less deep than the limit on the steps of a walk. -/
theorem Linked.height_lt (linked : tree.Linked (trail.plug hole)) : hole.height < tree.stepLimit := by
  have all := linked.length_le
  rw [(Trail.slots_plug_perm trail hole).length_eq, List.length_append] at all
  have := hole.height_le_length
  simp only [stepLimit]
  omega

section Locate
variable [Keyed α κ] [Ord κ] {k : κ}

/-- What a search finds: a slot with the key, or the place where a node for the
key would hang, at which the values in order part. -/
inductive Located (tree : Tree α) (k : κ) (shape : Shape) : Place → Prop where
  | found {slot : Nat} {x : α} (inside : slot ∈ shape.slots) (filled : tree.values[slot]? = some x)
      (same : compare (Keyed.key x) k = .eq) : Located tree k shape (.found slot)
  | vacant {trail : Trail} (place : shape = trail.plug .leaf)
      (parts : Listing.Parts k (tree.listing trail.before) (tree.listing trail.after)) :
      Located tree k shape (.vacant trail.parent (trail.sideOr .right))

variable [Std.TransOrd κ]

theorem locateFrom_located (linked : tree.Linked (trail.plug hole))
    (sorted : Sorted (tree.listing (trail.plug hole).slots))
    (parts : Listing.Parts k (tree.listing trail.before) (tree.listing trail.after))
    (enough : hole.height < steps) :
    ∃ place, tree.locateFrom k steps hole.link trail.parent (trail.sideOr .right) = .ok place ∧
      Located tree k (trail.plug hole) place := by
  induction hole generalizing trail steps with
  | leaf =>
    obtain ⟨steps, rfl⟩ : ∃ n, steps = n + 1 := ⟨steps - 1, by omega⟩
    exact ⟨_, rfl, .vacant rfl parts⟩
  | node hue left slot right ihl ihr =>
    obtain ⟨steps, rfl⟩ : ∃ n, steps = n + 1 := ⟨steps - 1, by omega⟩
    simp only [Shape.height] at enough
    have inside : slot ∈ (trail.plug (.node hue left slot right)).slots := by simp [Shape.slots]
    obtain ⟨x, filled⟩ := linked.filled inside
    obtain ⟨atLeft, atRight⟩ := linked.children
    have around : Sorted ((tree.listing trail.before ++ tree.listing left.slots) ++
        x :: (tree.listing right.slots ++ tree.listing trail.after)) := by
      simpa [Trail.slots_plug, Shape.slots, listing_append, listing_cons filled] using sorted
    obtain ⟨-, less, greater⟩ := Listing.sorted_middle.mp around
    simp only [locateFrom, Shape.link, keyAt_eq filled, bind, Except.bind]
    split
    · rename_i smaller
      rw [atRight.child_eq.1]
      refine ihr atRight sorted ⟨fun y member => ?_, fun y member => parts.greater y member⟩ (by omega)
      simp only [Trail.before, listing_append, listing_cons filled, List.mem_append] at member
      rcases member with (member | member) | member
      · exact parts.less y member
      · exact Std.TransCmp.lt_trans (less y (List.mem_append_right _ member)) smaller
      · obtain rfl : y = x := by simpa [listing] using member
        exact smaller
    · rename_i larger
      rw [atLeft.child_eq.1]
      refine ihl atLeft sorted ⟨fun y member => parts.less y member, fun y member => ?_⟩ (by omega)
      simp only [Trail.after, List.cons_append, listing_append, listing_cons filled, List.mem_cons,
        List.mem_append] at member
      rcases member with rfl | member | member
      · exact larger
      · exact Std.TransCmp.gt_trans (Std.OrientedCmp.gt_of_lt (greater y (List.mem_append_left _ member))) larger
      · exact parts.greater y member
    · rename_i same
      exact ⟨_, rfl, .found inside filled same⟩

/-- A search in a tree in order finds the key or where it belongs. -/
theorem locate_located (linked : tree.Linked shape) (sorted : Sorted (tree.listing shape.slots)) (k : κ) :
    ∃ place, tree.locate k = .ok place ∧ Located tree k shape place := by
  have atTop : tree.Linked (Trail.top.plug shape) := linked
  have := locateFrom_located (k := k) atTop sorted ⟨nofun, nofun⟩ atTop.height_lt
  rwa [← linked.root] at this

end Locate

/-! The ends of the order, and the way from one node to the next. -/

/-- Going down on one side ends at a node with nothing on that side, and passes
no slot beyond those of the subtree. -/
theorem outermostFrom_eq (side : Side) (linked : tree.Linked (trail.plug hole))
    (named : hole.link = some slot) (enough : hole.height ≤ steps) :
    ∃ (trail' : Trail) (hue : Color) (slot' : Nat) (far : Shape),
      tree.outermostFrom side steps slot = .ok slot' ∧
        trail.plug hole = trail'.plug (.join side hue slot' .leaf far) ∧
        trail'.beside side = trail.beside side := by
  induction steps generalizing trail hole slot with
  | zero =>
    cases hole with
    | leaf => cases named
    | node hue left own right => simp [Shape.height] at enough
  | succ steps ih =>
    rcases Shape.eq_leaf_or_join side hole with rfl | ⟨own, near, far, isNode⟩
    · cases named
    rw [isNode, Shape.link_join] at named
    cases named
    rw [isNode] at linked enough
    simp only [outermostFrom, linked.down.child_eq.1, bind, Except.bind]
    cases lower : near.link with
    | none =>
      obtain rfl := Shape.link_eq_none.mp lower
      exact ⟨trail, hole.color, slot, far, rfl, by rw [← isNode], rfl⟩
    | some inner =>
      have shorter : near.height ≤ steps := by
        cases side <;> simp only [Shape.join, Shape.height] at enough <;> omega
      obtain ⟨trail', hue, slot', far', ends, same, beyond⟩ := ih linked.down lower shorter
      refine ⟨trail', hue, slot', far', ends, ?_, beyond.trans Trail.beside_under⟩
      rw [isNode]
      exact same

theorem outermost_eq (side : Side) (linked : tree.Linked (trail.plug hole)) (named : hole.link = some slot) :
    ∃ (trail' : Trail) (hue : Color) (slot' : Nat) (far : Shape),
      tree.outermost side slot = .ok slot' ∧
        trail.plug hole = trail'.plug (.join side hue slot' .leaf far) ∧
        trail'.beside side = trail.beside side :=
  outermostFrom_eq side linked named (Nat.le_of_lt linked.height_lt)

/-- The first slot of a subtree in order. -/
theorem outermost_left (linked : tree.Linked (trail.plug hole)) (named : hole.link = some slot) :
    ∃ slot' rest, tree.outermost .left slot = .ok slot' ∧ hole.slots = slot' :: rest := by
  obtain ⟨trail', hue, slot', far, ends, same, beyond⟩ := outermost_eq .left linked named
  have slots := congrArg Shape.slots same
  simp only [Trail.slots_plug, Trail.beside] at slots beyond
  rw [beyond, List.append_assoc, List.append_assoc, List.append_cancel_left_eq] at slots
  cases hole with
  | leaf => cases named
  | node own left slot right =>
    cases whole : (Shape.node own left slot right).slots with
    | nil => simp [Shape.slots] at whole
    | cons head rest =>
      rw [whole] at slots
      simp only [Shape.join, Shape.slots, List.nil_append, List.cons_append, List.cons.injEq] at slots
      exact ⟨slot', rest, ends, by rw [slots.1]⟩

/-- The first node in order. -/
theorem Linked.first_eq (linked : tree.Linked shape) : tree.first = .ok shape.slots.head? := by
  unfold first extreme
  rw [linked.root]
  cases named : shape.link with
  | none =>
    obtain rfl := Shape.link_eq_none.mp named
    rfl
  | some slot =>
    obtain ⟨slot', rest, ends, slots⟩ := outermost_left (show tree.Linked (Trail.top.plug shape) from linked) named
    simp only [ends, slots]
    rfl

/-- The last node in order. -/
theorem Linked.last_eq (linked : tree.Linked shape) : tree.last = .ok shape.slots.getLast? := by
  unfold last extreme
  rw [linked.root]
  cases named : shape.link with
  | none =>
    obtain rfl := Shape.link_eq_none.mp named
    rfl
  | some slot =>
    obtain ⟨trail, hue, slot', far, ends, same, beyond⟩ :=
      outermost_eq .right (show tree.Linked (Trail.top.plug shape) from linked) named
    have slots := congrArg Shape.slots same
    simp only [Trail.slots_plug, Trail.beside, Trail.before, Trail.after] at slots beyond
    simp only [beyond, Shape.join, Shape.slots, List.nil_append, List.append_nil] at slots
    simp only [ends, slots]
    rw [← List.append_assoc, List.getLast?_concat]
    rfl

/-- The way up ends where it last turned left. -/
theorem climb_eq (linked : tree.Linked (trail.plug hole)) (named : hole.link = some slot)
    (enough : trail.length < steps) :
    tree.climb steps (some slot) trail.parent = .ok trail.after.head? := by
  induction trail generalizing hole slot steps with
  | top =>
    obtain ⟨steps, rfl⟩ : ∃ n, steps = n + 1 := ⟨steps - 1, by omega⟩
    rfl
  | under side hue own sibling above ih =>
    obtain ⟨steps, rfl⟩ : ∃ n, steps = n + 1 := ⟨steps - 1, by omega⟩
    simp only [Trail.length] at enough
    have inside := Shape.mem_slots_of_link named
    simp only [Trail.parent, climb]
    cases side with
    | left =>
      have notSibling : some slot ≠ sibling.link :=
        Shape.link_ne fun beside => linked.apart.2.2 slot inside (by simp [Trail.slots, beside])
      have onRight : tree.child .right (some own) = .ok sibling.link := linked.child_eq.2
      simp only [onRight, bind, Except.bind, if_neg notSibling]
      rfl
    | right =>
      have onRight : tree.child .right (some own) = .ok hole.link := linked.child_eq.1
      have atParent := linked.up
      simp only [onRight, bind, Except.bind, named, ↓reduceIte, atParent.parent_eq Shape.link_join]
      exact ih atParent Shape.link_join (by omega)

/-- The next node in order. -/
theorem next_eq (linked : tree.Linked (trail.plug (.node hue left slot right))) :
    tree.next (some slot) = .ok (right.slots ++ trail.after).head? := by
  have onRight : tree.child .right (some slot) = .ok right.link := linked.children.2.child_eq.1
  simp only [next, reduceCtorEq, ↓reduceIte, onRight, bind, Except.bind]
  cases named : right.link with
  | none =>
    obtain rfl := Shape.link_eq_none.mp named
    simp only [linked.parent_eq rfl]
    exact climb_eq linked rfl linked.trail_lt
  | some lower =>
    obtain ⟨slot', rest, ends, slots⟩ := outermost_left linked.children.2 named
    simp only [ends, slots]
    rfl

/-- Wherever a slot stands in the order, the next one is its successor. -/
theorem Linked.next_eq {front back : List Nat} (linked : tree.Linked shape)
    (slots : shape.slots = front ++ slot :: back) : tree.next (some slot) = .ok back.head? := by
  have inside : slot ∈ shape.slots := by simp [slots]
  obtain ⟨trail, hue, left, right, rfl⟩ := Trail.exists_plug inside
  have same : front ++ slot :: back = (trail.before ++ left.slots) ++ slot :: (right.slots ++ trail.after) := by
    rw [← slots, Trail.slots_plug, Shape.slots]
    simp
  have distinct := linked.distinct
  rw [slots, List.perm_middle.nodup_iff, List.nodup_cons, List.mem_append, not_or] at distinct
  obtain ⟨-, -, rfl⟩ := (List.append_cons_inj_of_notMem distinct.1.1 distinct.1.2).mp same
  exact Tree.next_eq linked

/-! The values one after the other. -/

/-- A cursor before the node that comes next yields what is filed from there on. -/
theorem drainWithin_eq (front back : List Nat) (calls remaining : Nat) (linked : tree.Linked shape)
    (slots : shape.slots = front ++ back) (enough : back.length < calls) :
    tree.drainWithin calls ⟨back.head?, remaining⟩ = .ok (tree.listing back) := by
  induction back generalizing front calls remaining with
  | nil =>
    obtain ⟨calls, rfl⟩ : ∃ n, calls = n + 1 := ⟨calls - 1, by omega⟩
    rfl
  | cons slot rest ih =>
    obtain ⟨calls, rfl⟩ : ∃ n, calls = n + 1 := ⟨calls - 1, by omega⟩
    have inside : slot ∈ shape.slots := by simp [slots]
    obtain ⟨x, filled⟩ := linked.filled inside
    have behind := ih (front ++ [slot]) calls (remaining - 1) (by simp [slots]) (by simpa using enough)
    simp only [drainWithin, advance, List.head?_cons, linked.next_eq slots, value?_eq, filled,
      listing_cons filled, bind, Except.bind, pure, Except.pure, behind]

/-- So many calls yield the values from there on, and then nothing. -/
theorem advanceMany_eq (front back : List Nat) (calls remaining : Nat) (linked : tree.Linked shape)
    (slots : shape.slots = front ++ back) :
    tree.advanceMany calls ⟨back.head?, remaining⟩ =
      .ok ((List.range calls).map ((tree.listing back)[·]?),
        ⟨(back.drop calls).head?, remaining - min calls back.length⟩) := by
  induction calls generalizing front back remaining with
  | zero => simp [advanceMany]
  | succ calls ih =>
    cases back with
    | nil =>
      have behind := ih front [] remaining slots
      simp only [List.head?_nil] at behind
      simp only [advanceMany, advance, List.head?_nil, behind, bind, Except.bind, pure, Except.pure]
      simp [listing, List.replicate_succ]
    | cons slot rest =>
      have inside : slot ∈ shape.slots := by simp [slots]
      obtain ⟨x, filled⟩ := linked.filled inside
      have behind := ih (front ++ [slot]) rest (remaining - 1) (by simp [slots])
      simp only [advanceMany, advance, List.head?_cons, linked.next_eq slots, value?_eq, filled,
        listing_cons filled, bind, Except.bind, pure, Except.pure, behind]
      simp [List.range_succ_eq_map]
      omega

/-- Walking over a tree yields its values in order. -/
theorem Linked.toList_eq (linked : tree.Linked shape) : tree.toList = .ok (tree.listing shape.slots) := by
  have enough : shape.slots.length < tree.stepLimit := Nat.lt_succ_of_le linked.length_le
  simp only [toList, cursor, linked.first_eq]
  exact drainWithin_eq [] shape.slots tree.stepLimit tree.size linked rfl enough

end Tree

end Containers
