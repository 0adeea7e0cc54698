import Containers.Proofs.Invariant
import Containers.Tree.Validate

/-! The check of a tree. Every condition that it looks at follows from the
invariant, so it finds nothing wrong in a tree that is in order. -/
namespace Containers.Tree
variable {α κ : Type} [Keyed α κ] [Ord κ] {tree : Tree α} {trail : Trail} {shape hole left right : Shape}
  {side : Side} {hue : Color} {slot : Nat} {lower upper : Option κ} {x : α} {values : List α}

theorem check_ok {condition : Bool} (holds : condition = true) (violation : Violation) :
    check condition violation = .ok () := if_pos holds

theorem hangsBelow_ok (linked : tree.Linked (trail.plug hole)) (named : hole.link = some slot) :
    tree.hangsBelow trail.parent (some slot) = .ok true := by
  cases trail with
  | top => rfl
  | under side hue parent sibling above =>
    obtain ⟨near, far⟩ := linked.child_eq
    simp only [hangsBelow, Trail.parent, reduceCtorEq, ↓reduceIte, bind, Except.bind]
    cases side with
    | left =>
      simp only [near, named, ↓reduceIte]
      rfl
    | right =>
      rw [show tree.child .left (some parent) = _ from far]
      simp only
      split
      · rfl
      · rw [near, named]
        simp
        rfl

theorem checkParentOf_ok (linked : tree.Linked (trail.plug hole)) (above : trail.parent = some slot) :
    tree.checkParentOf side hole.link (some slot) = .ok () := by
  unfold checkParentOf
  cases named : hole.link with
  | none => rfl
  | some lower =>
    simp only [ne_eq, reduceCtorEq, not_false_eq_true, ↓reduceIte, linked.parent_eq named, above, bind, Except.bind]
    rfl

theorem checkBlack_ok (linked : tree.Linked (trail.plug hole)) (sentinel : tree.sentinel.color = .black)
    (black : hole.color = .black) (link : Link) : tree.checkBlack side hole.link link = .ok () := by
  simp only [checkBlack, linked.color_eq sentinel, black, bind, Except.bind]
  rfl

/-- The keys of these values lie between two bounds. -/
structure Between (lower upper : Option κ) (values : List α) : Prop where
  above : ∀ bound ∈ lower, ∀ x ∈ values, compare bound (Keyed.key x) = .lt
  below : ∀ bound ∈ upper, ∀ x ∈ values, compare (Keyed.key x) bound = .lt

theorem between_none (values : List α) : Between (none : Option κ) none values :=
  ⟨fun _ given => by simp at given, fun _ given => by simp at given⟩

theorem Between.single (between : Between lower upper values) (inside : x ∈ values) : Between lower upper [x] := by
  constructor
  · intro bound given y member
    cases List.mem_singleton.mp member
    exact between.above bound given x inside
  · intro bound given y member
    cases List.mem_singleton.mp member
    exact between.below bound given x inside

/-- The bounds as the check looks at them. -/
theorem between_singleton : Between lower upper [x] ↔
    (lower.all fun bound => (compare bound (Keyed.key x)).isLT) = true ∧
      (upper.all fun bound => (compare (Keyed.key x) bound).isLT) = true := by
  simp only [Option.all_eq_true, Ordering.isLT_iff_eq_lt]
  constructor
  · intro between
    exact ⟨fun bound given => between.above bound given x List.mem_cons_self,
      fun bound given => between.below bound given x List.mem_cons_self⟩
  · rintro ⟨above, below⟩
    constructor
    · intro bound given y member
      cases List.mem_singleton.mp member
      exact above bound given
    · intro bound given y member
      cases List.mem_singleton.mp member
      exact below bound given

theorem validateWithin_eq {rank depth : Nat} (linked : tree.Linked (trail.plug hole))
    (sentinel : tree.sentinel.color = .black) (balanced : hole.Balanced rank)
    (sorted : Sorted (tree.listing hole.slots)) (between : Between lower upper (tree.listing hole.slots))
    (enough : hole.height ≤ depth) :
    tree.validateWithin depth hole.link lower upper = .ok (hole.slots.length, rank + 1) := by
  induction hole generalizing trail rank depth lower upper with
  | leaf =>
    obtain rfl : rank = 0 := balanced
    cases depth <;> rfl
  | node hue left slot right ihl ihr =>
    obtain ⟨depth, rfl⟩ : ∃ n, depth = n + 1 := by
      cases depth with
      | zero => simp [Shape.height] at enough
      | succ depth => exact ⟨depth, rfl⟩
    obtain ⟨atLeft, atRight⟩ := linked.children
    have inside : slot ∈ (trail.plug (.node hue left slot right)).slots := by simp [Shape.slots]
    obtain ⟨x, filled⟩ := linked.filled inside
    have links := Tree.links_eq linked.live_link
    rw [Shape.link, linked.parts.2.1] at links
    have listing : tree.listing (Shape.node hue left slot right).slots =
        tree.listing left.slots ++ x :: tree.listing right.slots := by
      rw [Shape.slots, listing_append, listing_cons filled]
    rw [listing] at sorted between
    obtain ⟨rest, less, greater⟩ := Listing.sorted_middle.mp sorted
    obtain ⟨leftSorted, rightSorted, -⟩ := List.pairwise_append.mp rest
    obtain ⟨below, leftBalanced, rightBalanced, redBlack, isRank⟩ := balanced.below_node
    have leftBetween : Between lower (some (Keyed.key x)) (tree.listing left.slots) :=
      ⟨fun bound given y member => between.above bound given y (by simp [member]),
        fun bound given y member => by cases given; exact less y member⟩
    have rightBetween : Between (some (Keyed.key x)) upper (tree.listing right.slots) :=
      ⟨fun bound given y member => by cases given; exact greater y member,
        fun bound given y member => between.below bound given y (by simp [member])⟩
    have own : Between lower upper [x] := between.single (by simp)
    obtain ⟨aboveLower, belowUpper⟩ := between_singleton.mp own
    simp only [Shape.height] at enough
    have fromLeft : tree.validateWithin depth left.link lower (some (Keyed.key x)) =
        .ok (left.slots.length, below + 1) := ihl atLeft leftBalanced leftSorted leftBetween (by omega)
    have fromRight : tree.validateWithin depth right.link (some (Keyed.key x)) upper =
        .ok (right.slots.length, below + 1) := ihr atRight rightBalanced rightSorted rightBetween (by omega)
    have count : left.slots.length + right.slots.length + 1 = (Shape.node hue left slot right).slots.length := by
      simp only [Shape.slots, List.length_append, List.length_cons]
      omega
    simp only [Shape.link_node, validateWithin, links, hangsBelow_ok linked rfl, check_ok,
      checkParentOf_ok atLeft rfl, checkParentOf_ok atRight rfl, keyAt_eq filled, aboveLower, belowUpper, fromLeft,
      fromRight, count, decide_true, bind, Except.bind, isRank]
    cases hue with
    | red =>
      obtain ⟨leftBlack, rightBlack⟩ := redBlack rfl
      simp only [checkBlack_ok atLeft sentinel leftBlack, checkBlack_ok atRight sentinel rightBlack, ↓reduceIte]
      rfl
    | black => simp only [reduceCtorEq, ↓reduceIte]; rfl

/-- The check answers the black height, where the sentinel counts as well. Nothing but the colour
of the sentinel's record matters to it. -/
theorem Linked.validate_eq {rank : Nat} (linked : tree.Linked shape) (sentinel : tree.sentinel.color = .black)
    (black : shape.color = .black) (balanced : shape.Balanced rank) (sorted : Sorted (tree.listing shape.slots))
    (count : shape.slots.length = tree.size) : tree.validate = .ok (rank + 1) := by
  have atTop : tree.Linked (Trail.top.plug shape) := linked
  have within := validateWithin_eq atTop sentinel balanced sorted (between_none _) (Nat.le_of_lt atTop.height_lt)
  have rootColor := atTop.color_eq sentinel
  rw [black] at rootColor
  rw [count] at within
  unfold validate
  rw [linked.root]
  simp only [rootColor, sentinel, within, check_ok, decide_true, bind, Except.bind]
  cases named : shape.link with
  | none => rfl
  | some slot =>
    simp only [atTop.parent_eq named, ne_eq, reduceCtorEq, not_false_eq_true, ↓reduceIte]
    rfl

/-- The check finds nothing wrong in a tree in order. -/
theorem Sound.validate_eq {rank : Nat} (sound : tree.Sound shape) (balanced : shape.Balanced rank) :
    tree.validate = .ok (rank + 1) := by
  have sentinel : tree.sentinel.color = .black := by rw [sound.sentinel]; rfl
  have count : shape.slots.length = tree.size := by rw [sound.perm.length_eq, List.length_range]
  exact sound.linked.validate_eq sentinel sound.black balanced sound.sorted count

end Containers.Tree
