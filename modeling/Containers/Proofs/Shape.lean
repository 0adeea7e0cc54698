import Containers.Side
import Containers.Tree.Link

/-! Coloured binary trees of arena slots, and places inside them. A shape is
what the links of an arena spell out; a trail leads from a place in a shape up
to the root and remembers everything beside the way. Repairs happen at a place,
so they are described by the trail and by the subtree that hangs there. -/
namespace Containers

theorem Color.ne_red {hue : Color} : hue ≠ .red ↔ hue = .black := by
  cases hue <;> simp

theorem Color.ne_black {hue : Color} : hue ≠ .black ↔ hue = .red := by
  cases hue <;> simp

/-- A binary tree of slots, each with the colour of its node. -/
inductive Shape where
  | leaf
  | node (color : Color) (left : Shape) (slot : Nat) (right : Shape)

namespace Shape

variable {side : Side} {hue : Color} {slot other rank : Nat} {near middle far : Shape}

/-- The link to a subtree. -/
def link : Shape → Link
  | leaf => none
  | node _ _ slot _ => some slot

/-- The colour of a subtree's root; a missing child counts as black. -/
def color : Shape → Color
  | leaf => .black
  | node color _ _ _ => color

/-- The slots from left to right. -/
def slots : Shape → List Nat
  | leaf => []
  | node _ left slot right => left.slots ++ slot :: right.slots

/-- The longest way down, counted in nodes. -/
def height : Shape → Nat
  | leaf => 0
  | node _ left _ right => max left.height right.height + 1

/-- A subtree whose root has another colour. -/
def paint (color : Color) : Shape → Shape
  | leaf => leaf
  | node _ left slot right => node color left slot right

/-- A node with `near` on the given side and `far` on the other. -/
def join (side : Side) (color : Color) (slot : Nat) (near far : Shape) : Shape :=
  match side with
  | .left => node color near slot far
  | .right => node color far slot near

@[simp] theorem link_node {left right : Shape} : (node hue left slot right).link = some slot := rfl

@[simp] theorem link_join : (join side hue slot near far).link = some slot := by
  cases side <;> rfl

@[simp] theorem color_join : (join side hue slot near far).color = hue := by
  cases side <;> rfl

@[simp] theorem paint_join :
    (join side hue slot near far).paint dye = join side dye slot near far := by
  cases side <;> rfl

@[simp] theorem link_paint (shape : Shape) : (shape.paint hue).link = shape.link := by
  cases shape <;> rfl

@[simp] theorem color_paint_black (shape : Shape) : (shape.paint .black).color = .black := by
  cases shape <;> rfl

@[simp] theorem slots_paint (shape : Shape) : (shape.paint hue).slots = shape.slots := by
  cases shape <;> rfl

theorem paint_own (shape : Shape) (same : shape.color = hue) : shape.paint hue = shape := by
  cases shape with
  | leaf => rfl
  | node own left slot right => cases same; rfl

theorem join_opposite (near far : Shape) :
    join side.opposite hue slot near far = join side hue slot far near := by
  cases side <;> rfl

/-- Seen from any side, a subtree is missing or a node with two subtrees. -/
theorem eq_leaf_or_join (side : Side) (shape : Shape) :
    shape = leaf ∨ ∃ slot near far, shape = join side shape.color slot near far := by
  cases shape with
  | leaf => exact .inl rfl
  | node own left slot right =>
    cases side with
    | left => exact .inr ⟨slot, left, right, rfl⟩
    | right => exact .inr ⟨slot, right, left, rfl⟩

/-- A node seen from any side. -/
theorem exists_join (side : Side) (hue : Color) (left : Shape) (slot : Nat) (right : Shape) :
    ∃ near far, node hue left slot right = join side hue slot near far := by
  cases side with
  | left => exact ⟨left, right, rfl⟩
  | right => exact ⟨right, left, rfl⟩

theorem join_ne_leaf : join side hue slot near far ≠ leaf := by
  cases side <;> nofun

theorem link_eq_none {shape : Shape} : shape.link = none ↔ shape = leaf := by
  cases shape <;> simp [link]

theorem exists_link_of_red {shape : Shape} (red : shape.color = .red) : ∃ slot, shape.link = some slot := by
  cases shape with
  | leaf => cases red
  | node hue left slot right => exact ⟨slot, rfl⟩

theorem mem_slots_of_link {shape : Shape} (named : shape.link = some slot) : slot ∈ shape.slots := by
  cases shape with
  | leaf => cases named
  | node own left other right => cases named; simp [slots]

theorem link_ne {shape : Shape} (absent : slot ∉ shape.slots) : some slot ≠ shape.link :=
  fun named => absent (mem_slots_of_link named.symm)

theorem slots_join_perm :
    (join side hue slot near far).slots.Perm (slot :: (near.slots ++ far.slots)) := by
  cases side with
  | left => exact List.perm_middle
  | right => exact List.perm_middle.trans (.cons slot List.perm_append_comm)

@[simp] theorem mem_slots_join :
    other ∈ (join side hue slot near far).slots ↔
      other = slot ∨ other ∈ near.slots ∨ other ∈ far.slots := by
  rw [slots_join_perm.mem_iff, List.mem_cons, List.mem_append]

theorem slots_join_congr {near' far' : Shape} (nearSame : near.slots = near'.slots)
    (farSame : far.slots = far'.slots) :
    (join side hue slot near far).slots = (join side dye slot near' far').slots := by
  cases side <;> simp [join, slots, nearSame, farSame]

theorem nodup_join : (join side hue slot near far).slots.Nodup ↔
    slot ∉ near.slots ∧ slot ∉ far.slots ∧ near.slots.Nodup ∧ far.slots.Nodup ∧
      ∀ other ∈ near.slots, other ∉ far.slots := by
  rw [slots_join_perm.nodup_iff, List.nodup_cons, List.nodup_append, List.mem_append, not_or]
  constructor
  · rintro ⟨⟨notNear, notFar⟩, nearDistinct, farDistinct, apart⟩
    exact ⟨notNear, notFar, nearDistinct, farDistinct, fun other inNear inFar =>
      apart other inNear other inFar rfl⟩
  · rintro ⟨notNear, notFar, nearDistinct, farDistinct, apart⟩
    refine ⟨⟨notNear, notFar⟩, nearDistinct, farDistinct, ?_⟩
    rintro other inNear _ inFar rfl
    exact apart other inNear inFar

theorem nodup_node {left right : Shape} : (node hue left slot right).slots.Nodup ↔
    slot ∉ left.slots ∧ slot ∉ right.slots ∧ left.slots.Nodup ∧ right.slots.Nodup ∧
      ∀ other ∈ left.slots, other ∉ right.slots :=
  (nodup_join : (join .left hue slot left right).slots.Nodup ↔ _)

theorem height_le_length (shape : Shape) : shape.height ≤ shape.slots.length := by
  induction shape with
  | leaf => exact Nat.le_refl 0
  | node own left slot right ihl ihr =>
    simp only [height, slots, List.length_append, List.length_cons]
    omega

/-- Lifting a child over its parent leaves the slots in their order, whatever
the colours. -/
theorem slots_rotate (outer inner outer' inner' : Color) :
    (join side outer slot (join side inner other near middle) far).slots =
      (join side inner' other near (join side outer' slot middle far)).slots := by
  cases side <;> simp [join, slots]

/-! Colours. -/

/-- No red node has a red child. -/
def RedsApart : Shape → Prop
  | leaf => True
  | node color left _ right =>
    (color = .red → left.color = .black ∧ right.color = .black) ∧
      left.RedsApart ∧ right.RedsApart

/-- The black nodes on every way down to a missing child. -/
def blackCounts : Shape → List Nat
  | leaf => [0]
  | node color left _ right =>
    (left.blackCounts ++ right.blackCounts).map (· + if color = .black then 1 else 0)

/-- No red node has a red child, and every way down passes `rank` black nodes. -/
def Balanced : Shape → Nat → Prop
  | leaf, rank => rank = 0
  | node .red left _ right, rank =>
    left.color = .black ∧ right.color = .black ∧ left.Balanced rank ∧ right.Balanced rank
  | node .black left _ right, rank =>
    ∃ below, rank = below + 1 ∧ left.Balanced below ∧ right.Balanced below

theorem balanced_red : (join side .red slot near far).Balanced rank ↔
    near.color = .black ∧ far.color = .black ∧ near.Balanced rank ∧ far.Balanced rank := by
  cases side with
  | left => exact Iff.rfl
  | right =>
    constructor
    · rintro ⟨farBlack, nearBlack, farBalanced, nearBalanced⟩
      exact ⟨nearBlack, farBlack, nearBalanced, farBalanced⟩
    · rintro ⟨nearBlack, farBlack, nearBalanced, farBalanced⟩
      exact ⟨farBlack, nearBlack, farBalanced, nearBalanced⟩

theorem balanced_black :
    (join side .black slot near far).Balanced (rank + 1) ↔
      near.Balanced rank ∧ far.Balanced rank := by
  cases side with
  | left => simp [join, Balanced]
  | right => simp [join, Balanced, and_comm]

/-- The ways through a black node are one black node longer than those below it. -/
theorem Balanced.below_black (balanced : (join side .black slot near far).Balanced rank) :
    ∃ below, rank = below + 1 ∧ near.Balanced below ∧ far.Balanced below := by
  cases side with
  | left => exact balanced
  | right =>
    obtain ⟨below, isRank, farBalanced, nearBalanced⟩ := balanced
    exact ⟨below, isRank, nearBalanced, farBalanced⟩

/-- What hangs below any node of a balanced shape. -/
theorem Balanced.below_node {left right : Shape} (balanced : (node hue left slot right).Balanced rank) :
    ∃ below, left.Balanced below ∧ right.Balanced below ∧
      (hue = .red → left.color = .black ∧ right.color = .black) ∧
      rank = below + if hue = .black then 1 else 0 := by
  cases hue with
  | red =>
    obtain ⟨leftBlack, rightBlack, leftBalanced, rightBalanced⟩ := balanced
    exact ⟨rank, leftBalanced, rightBalanced, fun _ => ⟨leftBlack, rightBlack⟩, rfl⟩
  | black =>
    obtain ⟨below, isRank, leftBalanced, rightBalanced⟩ := balanced
    exact ⟨below, leftBalanced, rightBalanced, nofun, isRank⟩

/-- What may hang below a node of a balanced shape. -/
theorem balanced_node {left right : Shape} (leftBalanced : left.Balanced rank) (rightBalanced : right.Balanced rank)
    (apart : hue = .red → left.color = .black ∧ right.color = .black) :
    (node hue left slot right).Balanced (rank + if hue = .black then 1 else 0) := by
  cases hue with
  | red =>
    obtain ⟨leftBlack, rightBlack⟩ := apart rfl
    exact ⟨leftBlack, rightBlack, leftBalanced, rightBalanced⟩
  | black => exact ⟨rank, rfl, leftBalanced, rightBalanced⟩

/-- A black subtree of positive black height is a node. -/
theorem Balanced.black_node {shape : Shape} (balanced : shape.Balanced (rank + 1))
    (black : shape.color = .black) (side : Side) :
    ∃ slot near far, shape = join side .black slot near far ∧
      near.Balanced rank ∧ far.Balanced rank := by
  rcases eq_leaf_or_join side shape with rfl | ⟨slot, near, far, isNode⟩
  · cases balanced
  · rw [black] at isNode
    subst isNode
    exact ⟨slot, near, far, rfl, balanced_black.mp balanced⟩

/-- A red subtree is a node whose children are black. -/
theorem Balanced.red_node {shape : Shape} (balanced : shape.Balanced rank)
    (red : shape.color = .red) (side : Side) :
    ∃ slot near far, shape = join side .red slot near far ∧ near.color = .black ∧
      far.color = .black ∧ near.Balanced rank ∧ far.Balanced rank := by
  rcases eq_leaf_or_join side shape with rfl | ⟨slot, near, far, isNode⟩
  · cases red
  · rw [red] at isNode
    subst isNode
    exact ⟨slot, near, far, rfl, balanced_red.mp balanced⟩

/-- Painting a red root black makes every way one black node longer. -/
theorem Balanced.paint_black {shape : Shape} (balanced : shape.Balanced rank)
    (red : shape.color = .red) : (shape.paint .black).Balanced (rank + 1) := by
  obtain ⟨slot, near, far, rfl, -, -, nearBalanced, farBalanced⟩ := balanced.red_node red .left
  rw [paint_join]
  exact balanced_black.mpr ⟨nearBalanced, farBalanced⟩

/-- There is a way down from every root. -/
theorem blackCounts_ne_nil (shape : Shape) : shape.blackCounts ≠ [] := by
  induction shape with
  | leaf => simp [blackCounts]
  | node color left slot right ihl ihr => simp [blackCounts, ihl]

/-- The ways through a node are those through its children, a step longer. -/
theorem all_blackCounts_node {left right : Shape} :
    (∀ count ∈ (node hue left slot right).blackCounts, count = rank) ↔
      (∀ count ∈ left.blackCounts, (count + if hue = .black then 1 else 0) = rank) ∧
        ∀ count ∈ right.blackCounts, (count + if hue = .black then 1 else 0) = rank := by
  simp only [blackCounts, List.forall_mem_map, List.forall_mem_append]

/-- Both conditions on the colours, said at once and said apart. -/
theorem balanced_iff {shape : Shape} :
    shape.Balanced rank ↔ shape.RedsApart ∧ ∀ count ∈ shape.blackCounts, count = rank := by
  induction shape generalizing rank with
  | leaf => simp [Balanced, RedsApart, blackCounts, eq_comm]
  | node color left slot right ihl ihr =>
    rw [all_blackCounts_node]
    cases color with
    | red =>
      simp only [Balanced, ihl, ihr, RedsApart, reduceCtorEq, ↓reduceIte, Nat.add_zero, forall_const]
      constructor
      · rintro ⟨leftBlack, rightBlack, ⟨leftApart, leftEqual⟩, rightApart, rightEqual⟩
        exact ⟨⟨⟨leftBlack, rightBlack⟩, leftApart, rightApart⟩, leftEqual, rightEqual⟩
      · rintro ⟨⟨⟨leftBlack, rightBlack⟩, leftApart, rightApart⟩, leftEqual, rightEqual⟩
        exact ⟨leftBlack, rightBlack, ⟨leftApart, leftEqual⟩, rightApart, rightEqual⟩
    | black =>
      simp only [Balanced, ihl, ihr, RedsApart, reduceCtorEq, ↓reduceIte, false_implies, true_and]
      constructor
      · rintro ⟨below, rfl, ⟨leftApart, leftEqual⟩, rightApart, rightEqual⟩
        exact ⟨⟨leftApart, rightApart⟩, fun count member => congrArg (· + 1) (leftEqual count member),
          fun count member => congrArg (· + 1) (rightEqual count member)⟩
      · rintro ⟨⟨leftApart, rightApart⟩, leftEqual, rightEqual⟩
        obtain ⟨below, member⟩ := List.exists_mem_of_ne_nil _ (blackCounts_ne_nil left)
        have rankIs := leftEqual below member
        refine ⟨below, rankIs.symm, ⟨leftApart, ?_⟩, rightApart, ?_⟩
        · intro count inside
          have := leftEqual count inside
          omega
        · intro count inside
          have := rightEqual count inside
          omega

end Shape

end Containers
