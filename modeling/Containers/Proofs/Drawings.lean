import Containers.Proofs.Succession
import Containers.Proofs.Visiting
import Containers.Proofs.Writing
import Mathlib.Data.List.Basic

/-! Reading a tree back from its drawing. The lines of a drawing list the slots in their
order, each with the edges to its children behind it, so that equal drawings show equal
keys, colours and children. A drawing tells neither the sides of the children, nor the
parents, nor the root. The order of the keys tells the sides, and the edges tell the rest. -/
namespace Containers

/-- What a drawing shows of a node: the children are in it without their sides. -/
structure Sketch (κ : Type) where
  key : κ
  color : Color
  children : List Nat

namespace Sketch
variable {κ : Type} [Shown κ] {slot child : Nat} {sketch other : Sketch κ}

/-- The line that draws a node. -/
def nodeLine (slot : Nat) (sketch : Sketch κ) : List Char :=
  ["\"n", toString slot, "\" [label=\"", Shown.text sketch.key, "\"; style=filled; fillcolor=",
    sketch.color.dotName, "; fontcolor=white];"].flatMap String.toList

/-- The line that draws an edge. -/
def edgeLine (slot child : Nat) : List Char :=
  ["\"n", toString slot, "\" -> \"n", toString child, "\";"].flatMap String.toList

/-- The lines behind the first one: those of the slots from this one on, and the last line. -/
def linesFrom (slot : Nat) : List (Sketch κ) → List (List Char)
  | [] => ["\x7d".toList]
  | sketch :: rest =>
    sketch.nodeLine slot :: sketch.children.map (edgeLine slot) ++ linesFrom (slot + 1) rest

/-- Only the lines of edges end with a name. -/
def isEdge (line : List Char) : Bool :=
  "\";".toList.isSuffixOf line

theorem isEdge_append (front : List Char) : isEdge (front ++ "\";".toList) = true :=
  List.isSuffixOf_iff_suffix.mpr (List.suffix_append ..)

theorem isEdge_edgeLine : isEdge (edgeLine slot child) = true := by
  simp only [edgeLine, List.flatMap_cons, List.flatMap_nil, List.append_nil, ← List.append_assoc, isEdge_append]

theorem isEdge_nodeLine : isEdge (sketch.nodeLine slot) = false := by
  have last : "; fontcolor=white];".toList = "; fontcolor=white".toList ++ "];".toList := rfl
  rw [Bool.eq_false_iff, ne_eq, isEdge, List.isSuffixOf_iff_suffix]
  rintro ⟨front, same⟩
  simp only [nodeLine, List.flatMap_cons, List.flatMap_nil, List.append_nil, last, ← List.append_assoc] at same
  exact absurd (List.append_inj' same rfl).2 (by decide)

theorem toString_injective {n m : Nat} (same : (toString n).toList = (toString m).toList) : n = m := by
  simp only [Nat.toString_eq_ofList_toDigits, String.toList_ofList] at same
  rw [← Nat.ofDigitChars_ten_toDigits (n := n), same, Nat.ofDigitChars_ten_toDigits]

theorem edgeLine_injective (slot : Nat) : Function.Injective (edgeLine slot) := by
  intro child child' same
  simp only [edgeLine, List.flatMap_cons, List.append_cancel_left_eq] at same
  exact toString_injective (List.append_cancel_right same)

/-- The name of a colour at the end of a text tells the colour. -/
theorem append_dotName_inj {front back : List Char} {hue hue' : Color}
    (same : front ++ hue.dotName.toList = back ++ hue'.dotName.toList) : front = back ∧ hue = hue' := by
  have last := congrArg List.getLast? same
  cases hue with
  | red =>
    cases hue' with
    | red => exact ⟨List.append_cancel_right same, rfl⟩
    | black => simp [Color.dotName] at last
  | black =>
    cases hue' with
    | red => simp [Color.dotName] at last
    | black => exact ⟨List.append_cancel_right same, rfl⟩

/-- The key and the colour can be read off the line of a node. -/
theorem nodeLine_eq (injective : Function.Injective (Shown.text : κ → String))
    (same : sketch.nodeLine slot = other.nodeLine slot) : sketch.key = other.key ∧ sketch.color = other.color := by
  simp only [nodeLine, List.flatMap_cons, List.append_cancel_left_eq] at same
  simp only [← List.append_assoc, List.append_cancel_right_eq] at same
  obtain ⟨texts, colors⟩ := append_dotName_inj same
  exact ⟨injective (String.toList_inj.mp (List.append_cancel_right texts)), colors⟩

/-- The edges of a node end where the next node or the last line begins. -/
theorem takeWhile_edges (slot : Nat) (children : List Nat) (sketches : List (Sketch κ)) (next : Nat) :
    (children.map (edgeLine slot) ++ linesFrom next sketches).takeWhile isEdge = children.map (edgeLine slot) := by
  have edges : ∀ line ∈ children.map (edgeLine slot), isEdge line = true := by
    intro line member
    obtain ⟨child, -, rfl⟩ := List.mem_map.mp member
    exact isEdge_edgeLine
  have ends : (linesFrom next sketches).takeWhile isEdge = [] := by
    cases sketches with
    | nil => rfl
    | cons sketch rest =>
      rw [linesFrom, List.cons_append]
      exact List.takeWhile_cons_of_neg (by simp [isEdge_nodeLine])
  rw [List.takeWhile_append_of_pos edges, ends, List.append_nil]

theorem linesFrom_ne_nil (slot : Nat) (sketches : List (Sketch κ)) : linesFrom slot sketches ≠ [] := by
  cases sketches <;> simp [linesFrom]

/-- The lines of a drawing tell what it shows. -/
theorem linesFrom_injective (injective : Function.Injective (Shown.text : κ → String)) (slot : Nat) :
    Function.Injective (linesFrom slot : List (Sketch κ) → List (List Char)) := by
  intro sketches others same
  induction sketches generalizing slot others with
  | nil =>
    cases others with
    | nil => rfl
    | cons other rest => simp [linesFrom, linesFrom_ne_nil] at same
  | cons sketch sketches ih =>
    cases others with
    | nil => simp [linesFrom, linesFrom_ne_nil] at same
    | cons other others =>
      simp only [linesFrom, List.cons_append, List.cons.injEq] at same
      obtain ⟨nodes, behind⟩ := same
      obtain ⟨keys, colors⟩ := nodeLine_eq injective nodes
      have edges : sketch.children.map (edgeLine slot) = other.children.map (edgeLine slot) := by
        rw [← takeWhile_edges slot _ sketches (slot + 1), behind, takeWhile_edges]
      have children := List.map_injective_iff.mpr (edgeLine_injective slot) edges
      rw [edges] at behind
      have rest := ih (slot + 1) (List.append_cancel_left behind)
      cases sketch
      cases other
      cases keys
      cases colors
      cases children
      cases rest
      rfl

theorem isDigit_of_mem_toString {n : Nat} {c : Char} (inside : c ∈ (toString n).toList) : c.isDigit = true := by
  rw [Nat.toString_eq_ofList_toDigits, String.toList_ofList] at inside
  exact Nat.isDigit_of_mem_toDigits (by decide) (by decide) inside

theorem newline_not_mem_toString (n : Nat) : '\n' ∉ (toString n).toList := fun inside =>
  absurd (isDigit_of_mem_toString inside) (by decide)

/-- If no key's text has line breaks then no line has. -/
theorem newline_not_mem_linesFrom (unbroken : ∀ k : κ, '\n' ∉ (Shown.text k).toList) (slot : Nat)
    (sketches : List (Sketch κ)) : ∀ line ∈ linesFrom slot sketches, '\n' ∉ line := by
  induction sketches generalizing slot with
  | nil => simp [linesFrom]
  | cons sketch rest ih =>
    simp only [linesFrom, List.cons_append, List.forall_mem_cons, List.forall_mem_append, List.forall_mem_map]
    refine ⟨?_, fun child _ => ?_, ih (slot + 1)⟩
    · have colour : '\n' ∉ sketch.color.dotName.toList := by cases sketch.color <;> decide
      simp only [nodeLine, List.mem_flatMap, not_exists, not_and, List.forall_mem_cons]
      exact ⟨by decide, newline_not_mem_toString slot, by decide, unbroken _, by decide, colour, by decide, nofun⟩
    · simp only [edgeLine, List.mem_flatMap, not_exists, not_and, List.forall_mem_cons]
      exact ⟨by decide, newline_not_mem_toString slot, by decide, newline_not_mem_toString child, by decide, nofun⟩

end Sketch

/-- What a drawing shows of this node. -/
def Node.sketch {α κ : Type} [Keyed α κ] (node : Node α) : Sketch κ :=
  ⟨Keyed.key node.value, node.links.color, node.links.left.toList ++ node.links.right.toList⟩

namespace Tree
variable {α β κ : Type} [Keyed α κ] [Keyed β κ] {tree : Tree α} {other : Tree β} {shape : Shape} {slot : Nat}

/-- What a drawing shows of the nodes, by slot. -/
def sketches (tree : Tree α) : List (Sketch κ) :=
  tree.nodes.items.toList.map Node.sketch

/-- The lines of a drawing: the slots in their order, each with its key and its colour, and
behind it one edge to each of its children. -/
def dotLines [Shown κ] (tree : Tree α) : List (List Char) :=
  "digraph G \x7b".toList :: Sketch.linesFrom 0 tree.sketches

section Text
variable [Shown κ]

theorem toList_dotEdge (slot : Nat) (link : Link) : (Node.dotEdge slot link).flatMap String.toList =
    (link.toList.map (Sketch.edgeLine slot)).flatMap (· ++ ['\n']) := by
  have last : "\";\n".toList = "\";".toList ++ ['\n'] := rfl
  cases link with
  | none => rfl
  | some child =>
    simp only [Node.dotEdge, Sketch.edgeLine, Option.toList_some, List.map_cons, List.map_nil, List.flatMap_cons,
      List.flatMap_nil, List.append_assoc, List.append_nil, last]

theorem toList_dotStatement (slot : Nat) (node : Node α) :
    (node.dotStatement slot).flatMap String.toList = node.sketch.nodeLine slot ++ ['\n'] := by
  have last : "; fontcolor=white];\n".toList = "; fontcolor=white];".toList ++ ['\n'] := rfl
  simp only [Node.dotStatement, Sketch.nodeLine, Node.sketch, List.flatMap_cons, List.flatMap_nil, List.append_assoc,
    List.append_nil, last]

/-- The text is made of these lines. -/
theorem toList_toDot (tree : Tree α) : tree.toDot.toList = tree.dotLines.flatMap (· ++ ['\n']) := by
  have behind : ∀ (nodes : List (Node α)) (slot : Nat),
      ((nodes.zipIdx slot).flatMap fun entry => entry.1.dotStatement entry.2 ++
        Node.dotEdge entry.2 entry.1.links.left ++ Node.dotEdge entry.2 entry.1.links.right).flatMap String.toList ++
          "\x7d\n".toList = (Sketch.linesFrom slot (nodes.map Node.sketch)).flatMap (· ++ ['\n']) := by
    intro nodes slot
    induction nodes generalizing slot with
    | nil => rfl
    | cons node rest ih =>
      simp only [List.zipIdx_cons, List.map_cons, Sketch.linesFrom, List.flatMap_cons, List.flatMap_append,
        ← ih, toList_dotStatement, toList_dotEdge, Node.sketch, List.map_append, List.append_assoc]
  rw [toDot_eq, String.toList_join, dotPieces, dotLines, sketches]
  simp only [List.cons_append, List.flatMap_cons, List.flatMap_append, List.flatMap_nil, List.append_nil, ← behind]
  rfl

/-- The lines can be told apart in the text. -/
theorem splitOn_toDot (unbroken : ∀ k : κ, '\n' ∉ (Shown.text k).toList) (tree : Tree α) :
    tree.toDot.toList.splitOn '\n' = tree.dotLines ++ [[]] := by
  have joined : ∀ lines : List (List Char), ['\n'].intercalate (lines ++ [[]]) = lines.flatMap (· ++ ['\n']) := by
    intro lines
    induction lines with
    | nil => rfl
    | cons line rest ih =>
      rw [List.flatMap_cons, ← ih, List.cons_append]
      cases rest with
      | nil => rw [List.nil_append, List.intercalate_cons_cons]
      | cons next rest => rw [List.cons_append, List.intercalate_cons_cons]
  rw [toList_toDot, ← joined]
  apply List.splitOn_intercalate
  · simp only [dotLines, List.cons_append, List.forall_mem_cons, List.forall_mem_append]
    exact ⟨by decide, Sketch.newline_not_mem_linesFrom unbroken 0 _, nofun, nofun⟩
  · simp

end Text

theorem getElem?_sketches (tree : Tree α) (slot : Nat) :
    tree.sketches[slot]? = (tree.nodes.items[slot]?).map Node.sketch := by
  rw [sketches, List.getElem?_map, Array.getElem?_toList]

theorem mem_children {node : Node α} {child : Nat} :
    child ∈ node.sketch.children ↔ ∃ side, node.links.child side = some child := by
  simp only [Node.sketch, List.mem_append, Option.mem_toList]
  constructor
  · rintro (onLeft | onRight)
    · exact ⟨.left, onLeft⟩
    · exact ⟨.right, onRight⟩
  · rintro ⟨_ | _, onSide⟩
    · exact .inl onSide
    · exact .inr onSide

/-- The keys and the links by slot: all of a tree but its values, its storage and the sentinel. -/
def skeleton (tree : Tree α) : List (κ × Links) :=
  tree.nodes.items.toList.map fun node => (Keyed.key node.value, node.links)

theorem sketches_eq (tree : Tree α) : tree.sketches =
    tree.skeleton.map fun (k, links) => ⟨k, links.color, links.left.toList ++ links.right.toList⟩ := by
  rw [skeleton, List.map_map]
  rfl

theorem getElem?_skeleton (tree : Tree α) (slot : Nat) : tree.skeleton[slot]? =
    (tree.nodes.items[slot]?).map fun node => (Keyed.key node.value, node.links) := by
  rw [skeleton, List.getElem?_map, Array.getElem?_toList]

section Links
variable [Ord κ]

/-- The order of the key of a child on this side and the key of its parent. -/
def sideOrder : Side → Ordering
  | .left => .lt
  | .right => .gt

/-- A drawing tells the links of a slot: the children on each side are those with keys on that
side of the slot's own, and the parent is the slot with an edge to this one. -/
structure Tells (sketches : List (Sketch κ)) (slot : Nat) (links : Links) : Prop where
  child : ∀ side child, links.child side = some child ↔
    ∃ own lower, sketches[slot]? = some own ∧ child ∈ own.children ∧ sketches[child]? = some lower ∧
      compare lower.key own.key = sideOrder side
  parent : ∀ above, links.parent = some above ↔
    ∃ upper, sketches[above]? = some upper ∧ slot ∈ upper.children
  color : (sketches[slot]?).map Sketch.color = some links.color

/-- A drawing tells one thing only. -/
theorem Tells.unique {sketches : List (Sketch κ)} {links links' : Links} (tells : Tells sketches slot links)
    (tells' : Tells sketches slot links') : links = links' := by
  have children : ∀ side, links.child side = links'.child side := fun side =>
    Option.ext fun child => (tells.child side child).trans (tells'.child side child).symm
  have parents : links.parent = links'.parent :=
    Option.ext fun above => (tells.parent above).trans (tells'.parent above).symm
  have colors := Option.some.inj (tells.color.symm.trans tells'.color)
  have lefts := children .left
  have rights := children .right
  cases links
  cases links'
  simp only [Links.child] at lefts rights parents colors
  rw [lefts, rights, parents, colors]

section Sound
variable {node : Node α}

/-- A node has a place in the shape, here with the subtree on one side in front. -/
theorem Sound.exists_place (sound : tree.Sound shape) (found : tree.nodes.items[slot]? = some node) (side : Side) :
    ∃ (trail : Trail) (near far : Shape), shape = trail.plug (.join side node.links.color slot near far) ∧
      node.links = .join side near.link far.link trail.parent node.links.color := by
  have live : slot < tree.size := (Array.getElem?_eq_some_iff.mp found).1
  obtain ⟨trail, hue, left, right, rfl⟩ := Trail.exists_plug (sound.full slot live)
  have own := sound.linked.parts.2.1
  rw [record_eq found] at own
  rw [own]
  cases side with
  | left => exact ⟨trail, left, right, rfl, rfl⟩
  | right => exact ⟨trail, right, left, rfl, rfl⟩

/-- The key of a child is on the child's side of its parent's key. -/
theorem Sound.order_of_child [Std.TransOrd κ] (sound : tree.Sound shape) (found : tree.nodes.items[slot]? = some node)
    {side : Side} {child : Nat} (hangs : node.links.child side = some child) :
    ∃ lower, tree.nodes.items[child]? = some lower ∧
      compare (Keyed.key lower.value) (Keyed.key node.value) = sideOrder side := by
  obtain ⟨trail, near, far, rfl, own⟩ := sound.exists_place found side
  rw [own, Links.child_join] at hangs
  have inside := Shape.mem_slots_of_link hangs
  obtain ⟨lower, foundLower⟩ := exists_node (sound.linked.live child (by simp [inside]))
  have filled : tree.values[slot]? = some node.value := by rw [values_eq, found, Option.map_some]
  have filledLower : tree.values[child]? = some lower.value := by rw [values_eq, foundLower, Option.map_some]
  refine ⟨lower, foundLower, ?_⟩
  cases side with
  | left =>
    have slots : (trail.plug (.join .left node.links.color slot near far)).slots =
        (trail.before ++ near.slots) ++ slot :: (far.slots ++ trail.after) := by
      simp [Trail.slots_plug, Shape.join, Shape.slots]
    exact (sound.sides slots filled filledLower).1 (by simp [inside])
  | right =>
    have slots : (trail.plug (.join .right node.links.color slot near far)).slots =
        (trail.before ++ far.slots) ++ slot :: (near.slots ++ trail.after) := by
      simp [Trail.slots_plug, Shape.join, Shape.slots]
    exact Std.OrientedCmp.gt_of_lt ((sound.sides slots filled filledLower).2 (by simp [inside]))

/-- The parent of a node is the one that has it as a child. -/
theorem Sound.parent_iff (sound : tree.Sound shape) (found : tree.nodes.items[slot]? = some node) (above : Nat) :
    node.links.parent = some above ↔
      ∃ upper side, tree.nodes.items[above]? = some upper ∧ upper.links.child side = some slot := by
  constructor
  · intro named
    obtain ⟨trail, near, far, rfl, own⟩ := sound.exists_place found .left
    rw [own, Links.parent_join] at named
    cases trail with
    | top => cases named
    | under side hue parent sibling rest =>
      cases named
      obtain ⟨upper, foundUpper⟩ := exists_node (sound.linked.live_parent above rfl)
      have record := sound.linked.parts.1.1
      rw [record_eq foundUpper] at record
      exact ⟨upper, side, foundUpper, by rw [record, Links.child_join, Shape.link_join]⟩
  · rintro ⟨upper, side, foundUpper, hangs⟩
    obtain ⟨trail, near, far, rfl, own⟩ := sound.exists_place foundUpper side
    rw [own, Links.child_join] at hangs
    rw [← record_eq found]
    exact sound.linked.down.parts.2.parent_eq hangs

/-- The drawing of a tree in order tells the links of every node. -/
theorem Sound.tells [Std.TransOrd κ] (sound : tree.Sound shape) (found : tree.nodes.items[slot]? = some node) :
    Tells tree.sketches slot node.links where
  child side child := by
    simp only [getElem?_sketches, found, Option.map_some]
    constructor
    · intro hangs
      obtain ⟨lower, foundLower, order⟩ := sound.order_of_child found hangs
      exact ⟨_, lower.sketch, rfl, mem_children.mpr ⟨side, hangs⟩, by rw [foundLower]; rfl, order⟩
    · rintro ⟨_, lower, ⟨rfl⟩, drawn, foundLower, order⟩
      obtain ⟨own, hangs⟩ := mem_children.mp drawn
      obtain ⟨lower', foundLower', order'⟩ := sound.order_of_child found hangs
      rw [foundLower'] at foundLower
      cases foundLower
      have sides : sideOrder side = sideOrder own := order.symm.trans order'
      cases side <;> cases own <;> first | exact hangs | cases sides
  parent above := by
    rw [sound.parent_iff found above]
    simp only [getElem?_sketches, Option.map_eq_some_iff]
    constructor
    · rintro ⟨upper, side, foundUpper, hangs⟩
      exact ⟨_, ⟨upper, foundUpper, rfl⟩, mem_children.mpr ⟨side, hangs⟩⟩
    · rintro ⟨_, ⟨upper, foundUpper, rfl⟩, drawn⟩
      obtain ⟨side, hangs⟩ := mem_children.mp drawn
      exact ⟨upper, side, foundUpper, hangs⟩
  color := by
    rw [getElem?_sketches, found]
    rfl

/-- The root is the node without a parent. -/
theorem Sound.root_eq_some_iff (sound : tree.Sound shape) :
    tree.root = some slot ↔ ∃ k links, tree.skeleton[slot]? = some (k, links) ∧ links.parent = none := by
  have orphan : ∀ node, tree.nodes.items[slot]? = some node → (tree.root = some slot ↔ node.links.parent = none) := by
    intro node found
    obtain ⟨trail, near, far, rfl, own⟩ := sound.exists_place found .left
    rw [← sound.linked.root_iff Shape.link_join, own, Links.parent_join]
    cases trail <;> simp [Trail.side?, Trail.parent]
  simp only [getElem?_skeleton, Option.map_eq_some_iff, Prod.mk.injEq]
  constructor
  · intro root
    have inside := Shape.mem_slots_of_link (sound.linked.root.symm.trans root)
    obtain ⟨node, found⟩ := exists_node (sound.linked.live slot inside)
    exact ⟨_, _, ⟨node, found, rfl, rfl⟩, (orphan node found).mp root⟩
  · rintro ⟨_, _, ⟨node, found, rfl, rfl⟩, none⟩
    exact (orphan node found).mpr none

end Sound

/-- Trees in order with equal drawings have equal skeletons. -/
theorem Sound.skeleton_eq [Std.TransOrd κ] {shape' : Shape} (sound : tree.Sound shape) (sound' : other.Sound shape')
    (same : tree.sketches = other.sketches) : tree.skeleton = other.skeleton := by
  apply List.ext_getElem?
  intro slot
  have shown : tree.sketches[slot]? = other.sketches[slot]? := by rw [same]
  rw [getElem?_sketches, getElem?_sketches] at shown
  rw [getElem?_skeleton, getElem?_skeleton]
  cases found : tree.nodes.items[slot]? with
  | none =>
    rw [found, Option.map_none, eq_comm, Option.map_eq_none_iff] at shown
    rw [shown]
    rfl
  | some node =>
    rw [found, Option.map_some, eq_comm, Option.map_eq_some_iff] at shown
    obtain ⟨node', found', sketches⟩ := shown
    have keys : Keyed.key node'.value = Keyed.key node.value := congrArg Sketch.key sketches
    have tells := sound.tells found
    rw [same] at tells
    rw [found', Option.map_some, Option.map_some, tells.unique (sound'.tells found'), keys]

end Links

end Tree

section Runs
variable {α β κ : Type} [Keyed α κ] [Keyed β κ] [Ord κ] [Std.TransOrd κ] [Shown κ]

/-- The lines of a drawing are those of the slots in their order, and if the texts of keys are
different and without line breaks, then two drawings are equal exactly if both trees have the
same keys, colours and links in the same slots and the same root. -/
theorem reachable_toDot_iff {tree : Tree α} {other : Tree β} (reachable : tree.Reachable)
    (otherReachable : other.Reachable) (injective : Function.Injective (Shown.text : κ → String))
    (unbroken : ∀ k : κ, '\n' ∉ (Shown.text k).toList) :
    tree.toDot.toList.splitOn '\n' = tree.dotLines ++ [[]] ∧
    (tree.toDot = other.toDot ↔ tree.skeleton = other.skeleton ∧ tree.root = other.root) := by
  obtain ⟨_, shape, sound, -⟩ := reachable.represents
  obtain ⟨_, shape', sound', -⟩ := otherReachable.represents
  refine ⟨Tree.splitOn_toDot unbroken tree, fun same => ?_, fun ⟨same, _⟩ => ?_⟩
  · have lines : tree.dotLines ++ [[]] = other.dotLines ++ [[]] := by
      rw [← Tree.splitOn_toDot unbroken, same, Tree.splitOn_toDot unbroken]
    have sketches := Sketch.linesFrom_injective injective 0 (List.cons.inj (List.append_cancel_right lines)).2
    have skeletons := sound.skeleton_eq sound' sketches
    refine ⟨skeletons, Option.ext fun slot => ?_⟩
    rw [sound.root_eq_some_iff, sound'.root_eq_some_iff, skeletons]
  · have sketches : tree.sketches = other.sketches := by
      rw [Tree.sketches_eq, same, ← Tree.sketches_eq]
    rw [← String.toList_inj, Tree.toList_toDot, Tree.toList_toDot, Tree.dotLines, Tree.dotLines, sketches]

/-- An only child is on the left here and on the right there. -/
theorem reachable_toDot_iff_bytes :
    Function.Injective (Shown.text : UInt8 → String) ∧ (∀ k : UInt8, '\n' ∉ (Shown.text k).toList) ∧
      (Tree.grown [(2 : UInt8), 1]).toDot ≠ (Tree.grown [(1 : UInt8), 2]).toDot := by
  have injective : Function.Injective (Shown.text : UInt8 → String) := fun k k' same =>
    UInt8.toNat_inj.mp (Sketch.toString_injective (congrArg String.toList same))
  have unbroken : ∀ k : UInt8, '\n' ∉ (Shown.text k).toList := by
    exact fun k => Sketch.newline_not_mem_toString k.toNat
  refine ⟨injective, unbroken, fun same => ?_⟩
  obtain ⟨skeletons, -⟩ := (reachable_toDot_iff (Tree.grown_reachable _) (Tree.grown_reachable _) injective
    unbroken).2.mp same
  have left : (Tree.grown [(2 : UInt8), 1]).skeleton =
    [(2, ⟨some 1, none, none, .black⟩), (1, ⟨none, none, some 0, .red⟩)] := rfl
  have right : (Tree.grown [(1 : UInt8), 2]).skeleton =
    [(1, ⟨none, some 1, none, .black⟩), (2, ⟨none, none, some 0, .red⟩)] := rfl
  rw [left, right] at skeletons
  exact absurd skeletons (by decide)

end Runs

end Containers
