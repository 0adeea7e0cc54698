import Containers.Proofs.Handles
import Containers.Proofs.Reachable
import Mathlib.Data.List.Nodup

/-! What a traversal tells about a tree. The visits name every slot once, so that the
subtree of a node is a block behind its visit, left before right. The depths alone say
where a block ends, which gives the size of the subtree, and with the sides they say
which block hangs where. A tree can be rebuilt from its visits, slot numbers apart. -/
namespace Containers

/-- What a visit shows but the links: the value, the colour, the side and the depth. -/
def Visit.row {α : Type} (visit : Visit α) : α × Color × Option Side × Nat :=
  (visit.node.value, visit.node.links.color, visit.side, visit.depth)

/-- The links after every slot got a new number. -/
def Links.renumber (number : Nat → Nat) (links : Links) : Links :=
  ⟨links.left.map number, links.right.map number, links.parent.map number, links.color⟩

namespace Shape
variable {shape shape' : Shape} {side : Option Side} {depth slot : Nat} {rest rest' : List Station}
  {number : Nat → Nat} {records records' : Records} {parent : Link}

/-- The station where the slot has a new number. -/
def Station.renumber (number : Nat → Nat) (station : Station) : Station :=
  { station with slot := number station.slot }

/-- The same shape over slots that got new numbers; nothing is said of the colours. -/
inductive Renumbered (number : Nat → Nat) : Shape → Shape → Prop
  | leaf : Renumbered number leaf leaf
  | node {hue hue' : Color} {left left' right right' : Shape} {slot : Nat} (onLeft : Renumbered number left left')
      (onRight : Renumbered number right right') :
      Renumbered number (node hue left slot right) (node hue' left' (number slot) right')

/-- Nothing of a subtree comes first here: the next station is higher up, or hangs on the
other side of the same node. -/
def Ends (side : Option Side) (depth : Nat) (rest : List Station) : Prop :=
  ∀ next ∈ rest.head?, next.depth ≤ depth ∧ (next.depth = depth → next.side ≠ side)

theorem ends_nil : Ends side depth [] := nofun

/-- Behind the whole subtree of a node the subtrees below it have ended. -/
theorem Ends.below {lower : Option Side} (ends : Ends side depth rest) : Ends lower (depth + 1) rest := by
  intro next first
  have := (ends next first).1
  constructor
  · omega
  · intro same
    omega

/-- The left subtree of a node ends where the right one begins, or the node's own subtree ends. -/
theorem Ends.before_right (ends : Ends side depth rest) (right : Shape) :
    Ends (some .left) (depth + 1) (right.stations (some .right) (depth + 1) ++ rest) := by
  cases right with
  | leaf => exact ends.below
  | node hue left slot right =>
    rintro _ ⟨rfl⟩
    exact ⟨Nat.le_refl _, fun _ => nofun⟩

/-- The stations of a shape stand in its slots. -/
theorem stations_perm (shape : Shape) (side : Option Side) (depth : Nat) :
    ((shape.stations side depth).map Station.slot).Perm shape.slots := by
  induction shape generalizing side depth with
  | leaf => exact .refl _
  | node hue left slot right ihl ihr =>
    simp only [stations, slots, List.map_cons, List.map_append]
    exact (((ihl _ _).append (ihr _ _)).cons slot).trans List.perm_middle.symm

/-- No station of a subtree lies above its root. -/
theorem le_depth {station : Station} (member : station ∈ shape.stations side depth) : depth ≤ station.depth := by
  induction shape generalizing side depth with
  | leaf => cases member
  | node hue left slot right ihl ihr =>
    simp only [stations, List.mem_cons, List.mem_append] at member
    rcases member with rfl | inside | inside
    · exact Nat.le_refl depth
    · exact Nat.le_of_succ_le (ihl inside)
    · exact Nat.le_of_succ_le (ihr inside)

/-- A run of deeper stations goes as far as the subtree. -/
theorem takeWhile_block {block : List Station} (deeper : ∀ later ∈ block, depth < later.depth)
    (ends : Ends side depth rest) : (block ++ rest).takeWhile (fun later => depth < later.depth) = block := by
  have past : rest.takeWhile (fun later => depth < later.depth) = [] := by
    cases rest with
    | nil => rfl
    | cons next rest =>
      have := (ends next rfl).1
      exact List.takeWhile_cons_of_neg (by simpa using this)
  rw [List.takeWhile_append_of_pos (by simpa using deeper), past, List.append_nil]

/-- From the sides and depths of its stations a shape is known, and so is where they end. -/
theorem renumbered_of_stations
    (same : (shape.stations side depth ++ rest).map (Station.renumber number) = shape'.stations side depth ++ rest')
    (ends : Ends side depth rest) (ends' : Ends side depth rest') :
    shape.Renumbered number shape' ∧ rest.map (Station.renumber number) = rest' := by
  induction shape generalizing shape' side depth rest rest' with
  | leaf =>
    cases shape' with
    | leaf => exact ⟨.leaf, same⟩
    | node hue' left' slot' right' =>
      cases rest with
      | nil => cases same
      | cons next rest =>
        simp only [stations, List.nil_append, List.map_cons, List.cons_append, List.cons.injEq,
          Station.renumber] at same
        obtain ⟨first, -⟩ := same
        have apart := (ends next rfl).2 (congrArg Station.depth first)
        exact absurd (congrArg Station.side first) apart
  | node hue left slot right ihl ihr =>
    cases shape' with
    | leaf =>
      cases rest' with
      | nil => cases same
      | cons next rest' =>
        simp only [stations, List.nil_append, List.map_cons, List.cons_append, List.cons.injEq,
          Station.renumber] at same
        obtain ⟨first, -⟩ := same
        have apart := (ends' next rfl).2 (congrArg Station.depth first).symm
        exact absurd (congrArg Station.side first).symm apart
    | node hue' left' slot' right' =>
      simp only [stations, List.map_cons, List.cons_append, List.append_assoc, List.cons.injEq] at same
      obtain ⟨own, below⟩ := same
      obtain ⟨onLeft, behind⟩ := ihl below (ends.before_right right) (ends'.before_right right')
      obtain ⟨onRight, after⟩ := ihr behind ends.below ends'.below
      obtain rfl : number slot = slot' := congrArg Station.slot own
      exact ⟨.node onLeft onRight, after⟩

theorem Renumbered.link_eq (renumbered : shape.Renumbered number shape') : shape'.link = shape.link.map number := by
  cases renumbered <;> rfl

/-- The records of a renumbered shape name the new numbers. -/
theorem Renumbered.record_eq (renumbered : shape.Renumbered number shape') (holds : shape.Holds records parent)
    (holds' : shape'.Holds records' (parent.map number)) (inside : slot ∈ shape.slots) :
    records' (some (number slot)) =
      { (records (some slot)).renumber number with color := (records' (some (number slot))).color } := by
  induction renumbered generalizing parent with
  | leaf => cases inside
  | @node hue hue' left left' right right' own onLeft onRight ihl ihr =>
    obtain ⟨record, leftHolds, rightHolds⟩ := holds
    obtain ⟨record', leftHolds', rightHolds'⟩ := holds'
    simp only [slots, List.mem_append, List.mem_cons] at inside
    rcases inside with inside | rfl | inside
    · exact ihl leftHolds leftHolds' inside
    · rw [record, record', onLeft.link_eq, onRight.link_eq]
      rfl
    · exact ihr rightHolds rightHolds' inside

end Shape

@[simp] theorem Trail.side?_under {side : Side} {hue : Color} {slot : Nat} {sibling : Shape} {above : Trail} :
    (under side hue slot sibling above).side? = some side := rfl

/-- A subtree is a block of the stations of the whole, and what comes behind it does not
belong to it. -/
theorem Trail.stations_plug (trail : Trail) (hole : Shape) :
    ∃ front back, (trail.plug hole).stations none 0 = front ++ hole.stations trail.side? trail.length ++ back ∧
      Shape.Ends trail.side? trail.length back := by
  induction trail generalizing hole with
  | top => exact ⟨[], [], by simp [plug, side?, length], Shape.ends_nil⟩
  | under side hue slot sibling above ih =>
    obtain ⟨front, back, whole, ends⟩ := ih (.join side hue slot hole sibling)
    cases side with
    | left =>
      refine ⟨front ++ [⟨slot, above.side?, above.length⟩],
        sibling.stations (some .right) (above.length + 1) ++ back, ?_, ends.before_right sibling⟩
      rw [plug, whole]
      simp [Shape.join, Shape.stations, length]
    | right =>
      refine ⟨front ++ ⟨slot, above.side?, above.length⟩ :: sibling.stations (some .left) (above.length + 1),
        back, ?_, ends.below⟩
      rw [plug, whole]
      simp [Shape.join, Shape.stations, length]

namespace Trail
variable {shape : Shape} {station : Shape.Station}

/-- Every station shows on which side its slot hangs and how many nodes are above it. -/
theorem exists_station (member : station ∈ shape.stations none 0) :
    ∃ trail hue left slot right, shape = plug trail (.node hue left slot right) ∧
      station = ⟨slot, trail.side?, trail.length⟩ := by
  suffices ∀ (trail : Trail) (hole : Shape), station ∈ hole.stations trail.side? trail.length →
      ∃ trail' hue left slot right, trail.plug hole = plug trail' (.node hue left slot right) ∧
        station = ⟨slot, trail'.side?, trail'.length⟩ from this top shape member
  intro trail hole member
  induction hole generalizing trail with
  | leaf => cases member
  | node hue left own right ihl ihr =>
    simp only [Shape.stations, List.mem_cons, List.mem_append] at member
    rcases member with here | inside | inside
    · exact ⟨trail, hue, left, own, right, rfl, here⟩
    · exact ihl (.under .left hue own right trail) inside
    · exact ihr (.under .right hue own left trail) inside

end Trail

namespace Tree
variable {α κ : Type} {tree other : Tree α} {shape shape' hole left right : Shape} {trail : Trail} {hue : Color}
  {slot depth steps : Nat} {number : Nat → Nat} {visits visits' : List (Visit α)}

/-- So many parent links lead from a slot up to the root. -/
inductive Rises (tree : Tree α) : Nat → Nat → Prop
  | root {slot : Nat} (named : tree.root = some slot) : Rises tree slot 0
  | up {slot above depth : Nat} (parent : tree.parent (some slot) = .ok (some above))
      (rest : Rises tree above depth) : Rises tree slot (depth + 1)

/-- A visit of a slot shows its node, the number of parent links up to the root, and which
child link of its parent leads to it, unless it is the root. -/
structure Depicts (tree : Tree α) (slot : Nat) (visit : Visit α) : Prop where
  node : tree.nodes.items[slot]? = some visit.node
  depth : tree.Rises slot visit.depth
  root : visit.side = none ↔ tree.root = some slot
  side : ∀ side, visit.side = some side ↔
    ∃ parent, tree.parent (some slot) = .ok (some parent) ∧ tree.child side (some parent) = .ok (some slot)

/-- The visits of a traversal, which come to the slots in this order: each live slot once, and
behind every slot first all slots below its left link, then all below its right link. A subtree
has as many nodes as there are visits in a row that lie deeper than its root, and the root. -/
structure Surveys (tree : Tree α) (order : List Nat) (visits : List (Visit α)) : Prop where
  made : tree.traverse = .ok visits
  once : order.Perm (List.range tree.size)
  depicted : List.Forall₂ tree.Depicts order visits
  nested : ∀ slot < tree.size, ∃ left right front below beside back,
    tree.child .left (some slot) = .ok left ∧ tree.child .right (some slot) = .ok right ∧
      order = front ++ slot :: (below ++ beside) ++ back ∧
      (∀ other, other ∈ below ↔ tree.Below left other) ∧ ∀ other, other ∈ beside ↔ tree.Below right other
  counted : ∀ position slot visit, order[position]? = some slot → visits[position]? = some visit →
    tree.subtreeSize (some slot) =
      .ok (1 + ((visits.drop (position + 1)).takeWhile fun later => visit.depth < later.depth).length)

/-- The other tree is this one with new numbers for its slots: it holds the same values in nodes
of the same colours, which are linked in the same way. -/
structure Renumbers (tree other : Tree α) (number : Nat → Nat) : Prop where
  size : other.size = tree.size
  distinct : ∀ slot < tree.size, ∀ slot' < tree.size, number slot = number slot' → slot = slot'
  root : other.root = tree.root.map number
  nodes : ∀ slot < tree.size, other.nodes.items[number slot]? =
    (tree.nodes.items[slot]?).map fun node => ⟨node.links.renumber number, node.value⟩

theorem Linked.rises (linked : tree.Linked (trail.plug hole)) (named : hole.link = some slot) :
    tree.Rises slot trail.length := by
  induction trail generalizing hole slot with
  | top => exact .root (linked.root.trans named)
  | under side hue own sibling above ih =>
    exact .up (linked.parent_eq named) (ih linked.up Shape.link_join)

/-- The link of its parent that leads to a node is the one on its side, and the root has none. -/
theorem Linked.hangs_iff (linked : tree.Linked (trail.plug hole)) (named : hole.link = some slot) (side : Side) :
    trail.side? = some side ↔
      ∃ parent, tree.parent (some slot) = .ok (some parent) ∧ tree.child side (some parent) = .ok (some slot) := by
  rw [linked.parent_eq named]
  cases trail with
  | top => exact iff_of_false nofun fun ⟨_, orphan, _⟩ => nomatch orphan
  | under own hue parent sibling above =>
    obtain ⟨link, child, hangs⟩ := linked.hangs_on named side
    rw [Trail.side?_under, Option.some.injEq, ← hangs]
    constructor
    · rintro rfl
      exact ⟨parent, rfl, child⟩
    · rintro ⟨_, ⟨rfl⟩, leads⟩
      exact Except.ok.inj (child.symm.trans leads)

/-- The root is the node without anything above it. -/
theorem Linked.root_iff (linked : tree.Linked (trail.plug hole)) (named : hole.link = some slot) :
    trail.side? = none ↔ tree.root = some slot := by
  rw [linked.root, ← named]
  cases trail with
  | top => exact iff_of_true rfl rfl
  | under side hue own sibling above =>
    exact iff_of_false nofun (Trail.link_plug_ne nofun linked.distinct)

theorem subtreeSizeWithin_eq (linked : tree.Linked (trail.plug hole)) (enough : hole.height ≤ steps) :
    tree.subtreeSizeWithin steps hole.link = .ok hole.slots.length := by
  induction hole generalizing trail steps with
  | leaf => cases steps <;> rfl
  | node hue left slot right ihl ihr =>
    simp only [Shape.height] at enough
    obtain ⟨steps, rfl⟩ : ∃ n, steps = n + 1 := ⟨steps - 1, by omega⟩
    obtain ⟨atLeft, atRight⟩ := linked.children
    have onLeft := ihl atLeft (by omega : left.height ≤ steps)
    have onRight := ihr atRight (by omega : right.height ≤ steps)
    simp only [Shape.link_node, subtreeSizeWithin, atLeft.child_eq.1, atRight.child_eq.1, onLeft, onRight, bind,
      Except.bind, pure, Except.pure, Shape.slots, List.length_append, List.length_cons]
    congr 1
    omega

/-- The visits of a whole traversal show the stations of the shape one after the other. -/
theorem Linked.traverse_eq (linked : tree.Linked shape) :
    ∃ visits, tree.traverse = .ok visits ∧ List.Forall₂ tree.Shows (shape.stations none 0) visits := by
  have atTop : tree.Linked (Trail.top.plug shape) := linked
  rw [traverse, linked.root]
  exact visitsWithin_eq atTop 0 (Nat.le_of_lt atTop.height_lt)

theorem Linked.depicts {station : Shape.Station} {visit : Visit α} (linked : tree.Linked shape)
    (member : station ∈ shape.stations none 0) (shows : tree.Shows station visit) :
    tree.Depicts station.slot visit := by
  obtain ⟨trail, hue, left, slot, right, rfl, rfl⟩ := Trail.exists_station member
  constructor
  · exact shows.node
  · rw [shows.depth]
    exact linked.rises rfl
  · rw [shows.side]
    exact linked.root_iff rfl
  · rw [shows.side]
    exact linked.hangs_iff rfl

/-- Behind a slot the traversal comes to the slots below it, left before right. -/
theorem Linked.nested (linked : tree.Linked (trail.plug (.node hue left slot right))) :
    ∃ front below beside back, ((trail.plug (.node hue left slot right)).stations none 0).map Shape.Station.slot =
        front ++ slot :: (below ++ beside) ++ back ∧
      (∀ other, other ∈ below ↔ tree.Below left.link other) ∧
      ∀ other, other ∈ beside ↔ tree.Below right.link other := by
  obtain ⟨front, back, whole, -⟩ := trail.stations_plug (.node hue left slot right)
  obtain ⟨atLeft, atRight⟩ := linked.children
  let slots : List Shape.Station → List Nat := List.map Shape.Station.slot
  refine ⟨slots front, slots (left.stations (some .left) (trail.length + 1)),
    slots (right.stations (some .right) (trail.length + 1)), slots back, ?_, fun other => ?_, fun other => ?_⟩
  · simp [whole, slots, Shape.stations]
  · rw [atLeft.below_iff]
    exact (left.stations_perm _ _).mem_iff
  · rw [atRight.below_iff]
    exact (right.stations_perm _ _).mem_iff

/-- The stations right behind the one of a node that lie deeper are those below it. -/
theorem Linked.counted (linked : tree.Linked (trail.plug (.node hue left slot right))) :
    ∃ position, ((trail.plug (.node hue left slot right)).stations none 0)[position]? =
        some ⟨slot, trail.side?, trail.length⟩ ∧
      tree.subtreeSize (some slot) =
        .ok (1 + ((((trail.plug (.node hue left slot right)).stations none 0).drop (position + 1)).takeWhile
          fun later => trail.length < later.depth).length) := by
  obtain ⟨front, back, whole, ends⟩ := trail.stations_plug (.node hue left slot right)
  let block := left.stations (some .left) (trail.length + 1) ++ right.stations (some .right) (trail.length + 1)
  have behind : ((trail.plug (.node hue left slot right)).stations none 0).drop (front.length + 1) =
      block ++ back := by
    simp [whole, block, Shape.stations]
  have deeper : ∀ later ∈ block, trail.length < later.depth := by
    intro later member
    rcases List.mem_append.mp member with inside | inside
    · exact Shape.le_depth inside
    · exact Shape.le_depth inside
  have size : tree.subtreeSize (some slot) = .ok (left.slots ++ slot :: right.slots).length :=
    subtreeSizeWithin_eq linked (Nat.le_of_lt linked.height_lt)
  refine ⟨front.length, ?_, ?_⟩
  · simp [whole, Shape.stations]
  · rw [size, behind, Shape.takeWhile_block deeper ends]
    simp only [block, List.length_append, List.length_cons, Shape.length_stations]
    congr 1
    omega

/-- Visits that lie deeper are as many as their stations. -/
theorem length_takeWhile_visits {stations : List Shape.Station} (shows : List.Forall₂ tree.Shows stations visits)
    (depth : Nat) : (visits.takeWhile fun later => depth < later.depth).length =
      (stations.takeWhile fun later => depth < later.depth).length := by
  induction shows with
  | nil => rfl
  | cons first rest ih =>
    simp only [List.takeWhile_cons, first.depth]
    split
    · rw [List.length_cons, List.length_cons, ih]
    · rfl

section Order
variable [Keyed α κ] [Ord κ]

theorem Sound.surveys (sound : tree.Sound shape) (made : tree.traverse = .ok visits)
    (shows : List.Forall₂ tree.Shows (shape.stations none 0) visits) :
    tree.Surveys ((shape.stations none 0).map Shape.Station.slot) visits where
  made := made
  once := (shape.stations_perm none 0).trans sound.perm
  depicted := by
    obtain ⟨length, each⟩ := List.forall₂_iff_zip.mp shows
    refine List.forall₂_map_left_iff.mpr (List.forall₂_iff_zip.mpr ⟨length, fun {station visit} member => ?_⟩)
    exact sound.linked.depicts (List.of_mem_zip member).1 (each member)
  nested slot live := by
    obtain ⟨trail, hue, left, right, rfl⟩ := Trail.exists_plug (sound.full slot live)
    obtain ⟨front, below, beside, back, arranged, onLeft, onRight⟩ := sound.linked.nested
    obtain ⟨atLeft, atRight⟩ := sound.linked.children
    exact ⟨left.link, right.link, front, below, beside, back, atLeft.child_eq.1, atRight.child_eq.1, arranged,
      onLeft, onRight⟩
  counted position slot visit named seen := by
    have distinct : ((shape.stations none 0).map Shape.Station.slot).Nodup :=
      (shape.stations_perm none 0).nodup_iff.mpr sound.linked.distinct
    obtain ⟨station, found, rfl⟩ : ∃ station, (shape.stations none 0)[position]? = some station ∧
        station.slot = slot := by
      rwa [List.getElem?_map, Option.map_eq_some_iff] at named
    obtain ⟨trail, hue, left, slot, right, rfl, rfl⟩ := Trail.exists_station (List.mem_of_getElem? found)
    obtain ⟨index, foundThere, size⟩ := sound.linked.counted
    obtain ⟨bound, isStation⟩ := List.getElem?_eq_some_iff.mp found
    obtain ⟨bound', isVisit⟩ := List.getElem?_eq_some_iff.mp seen
    obtain rfl : position = index :=
      (List.getElem?_inj bound (.of_map _ distinct)).mp (found.trans foundThere.symm)
    have shown := (List.forall₂_iff_get.mp shows).2 position bound bound'
    simp only [List.get_eq_getElem, isStation, isVisit] at shown
    have deep : visit.depth = trail.length := shown.depth
    rw [size, deep, length_takeWhile_visits (List.forall₂_drop (position + 1) shows)]

end Order

/-! Rebuilding a tree from the visits. -/

/-- Two stations at the same place hold nodes of the same colour with the same value. -/
structure Likens (tree other : Tree α) (station station' : Shape.Station) : Prop where
  side : station'.side = station.side
  depth : station'.depth = station.depth
  node : ∃ node links, tree.nodes.items[station.slot]? = some node ∧
    other.nodes.items[station'.slot]? = some ⟨links, node.value⟩ ∧ links.color = node.links.color

/-- Visits that show the same but for the links were made at stations that are alike. -/
theorem likens_of_rows {stations stations' : List Shape.Station} (shows : List.Forall₂ tree.Shows stations visits)
    (shows' : List.Forall₂ other.Shows stations' visits') (same : visits.map Visit.row = visits'.map Visit.row) :
    List.Forall₂ (tree.Likens other) stations stations' := by
  induction shows generalizing stations' visits' with
  | nil =>
    obtain rfl := List.map_eq_nil_iff.mp same.symm
    cases shows'
    exact .nil
  | @cons station visit stations visits first rest ih =>
    cases shows' with
    | nil => cases same
    | @cons station' visit' stations' visits' first' rest' =>
      simp only [List.map_cons, List.cons.injEq, Visit.row, Prod.mk.injEq] at same
      obtain ⟨⟨value, color, side, depth⟩, behind⟩ := same
      refine .cons ⟨?_, ?_, visit.node, visit'.node.links, first.node, ?_, color.symm⟩ (ih rest' behind)
      · rw [← first.side, ← first'.side, side]
      · rw [← first.depth, ← first'.depth, depth]
      · rw [first'.node, value]

/-- Stations that are alike differ in the numbers of their slots only. -/
theorem renumber_of_likens {stations stations' : List Shape.Station}
    (likens : List.Forall₂ (tree.Likens other) stations stations')
    (named : (stations.map Shape.Station.slot).map number = stations'.map Shape.Station.slot) :
    stations.map (Shape.Station.renumber number) = stations' := by
  induction likens with
  | nil => rfl
  | @cons station station' stations stations' first rest ih =>
    simp only [List.map_cons, List.cons.injEq] at named ⊢
    obtain ⟨own, behind⟩ := named
    refine ⟨?_, ih behind⟩
    rw [Shape.Station.renumber, own, ← first.side, ← first.depth]

/-- Some numbering takes slots that are all distinct to given ones. -/
theorem exists_numbering {slots slots' : List Nat} (distinct : slots.Nodup) (length : slots.length = slots'.length) :
    ∃ number : Nat → Nat, slots.map number = slots' := by
  refine ⟨fun slot => slots'[slots.idxOf slot]?.getD 0, List.ext_getElem (by simpa using length) ?_⟩
  intro position within within'
  rw [List.getElem_map, distinct.idxOf_getElem, List.getElem?_eq_getElem within', Option.getD_some]

section Rebuilding
variable [Keyed α κ] [Ord κ]

theorem Sound.renumbers (sound : tree.Sound shape) (sound' : other.Sound shape')
    (likens : List.Forall₂ (tree.Likens other) (shape.stations none 0) (shape'.stations none 0)) :
    ∃ number, tree.Renumbers other number := by
  have order := shape.stations_perm none 0
  have order' := shape'.stations_perm none 0
  have listed : ∀ slot < tree.size, slot ∈ (shape.stations none 0).map Shape.Station.slot := fun slot live =>
    order.mem_iff.mpr (sound.full slot live)
  obtain ⟨number, named⟩ := exists_numbering (order.nodup_iff.mpr sound.linked.distinct)
    (show _ = ((shape'.stations none 0).map Shape.Station.slot).length by simpa using likens.length_eq)
  have stations := renumber_of_likens likens named
  have whole : (shape.stations none 0 ++ []).map (Shape.Station.renumber number) =
      shape'.stations none 0 ++ [] := by simpa using stations
  obtain ⟨renumbered, -⟩ := Shape.renumbered_of_stations whole Shape.ends_nil Shape.ends_nil
  refine ⟨number, ?_, ?_, ?_, ?_⟩
  · have length := likens.length_eq
    rw [Shape.length_stations, Shape.length_stations, sound.perm.length_eq, sound'.perm.length_eq,
      List.length_range, List.length_range] at length
    exact length.symm
  · have distinct := order'.nodup_iff.mpr sound'.linked.distinct
    rw [← named] at distinct
    exact fun slot live slot' live' same =>
      List.inj_on_of_nodup_map distinct (listed slot live) (listed slot' live') same
  · rw [sound.linked.root, sound'.linked.root, renumbered.link_eq]
  · intro slot live
    obtain ⟨station, member, rfl⟩ := List.mem_map.mp (listed slot live)
    rw [← stations, List.forall₂_map_right_iff, List.forall₂_same] at likens
    obtain ⟨node, links, found, found', color⟩ := (likens station member).node
    have names := renumbered.record_eq sound.linked.holds sound'.linked.holds (sound.full _ live)
    simp only [Shape.Station.renumber] at found'
    rw [record_eq found, record_eq found', color] at names
    rw [found, Option.map_some, found']
    exact congrArg (fun links => some (Node.mk links node.value)) names

end Rebuilding

end Tree

section Runs
variable {α κ : Type} [Keyed α κ] [Ord κ] [Std.TransOrd κ]

/-- A traversal of any tree that a run leads to visits every node once, before those below it and
left before right; it shows how deep each node lies and on which side it hangs, and the sizes of
all subtrees. Two such trees with the same visits, links apart, are the same but for the numbers
of their slots. -/
theorem reachable_surveys {tree other : Tree α} (reachable : tree.Reachable) (otherReachable : other.Reachable) :
    (∃ order visits, tree.Surveys order visits) ∧
      ((·.map Visit.row) <$> tree.traverse = (·.map Visit.row) <$> other.traverse →
        ∃ number, tree.Renumbers other number) := by
  obtain ⟨_, shape, sound, -⟩ := reachable.represents
  obtain ⟨_, shape', sound', -⟩ := otherReachable.represents
  obtain ⟨visits, made, shows⟩ := sound.linked.traverse_eq
  obtain ⟨visits', made', shows'⟩ := sound'.linked.traverse_eq
  refine ⟨⟨_, visits, sound.surveys made shows⟩, fun same => ?_⟩
  rw [made, made'] at same
  exact sound.renumbers sound' (Tree.likens_of_rows shows shows' (Except.ok.inj same))

end Runs

/-- Filing three keys in two orders leads to the same tree in different slots. -/
theorem reachable_surveys_mirrored :
    let tree : Tree (Member UInt8) := .grown [2, 1, 3]
    let other : Tree (Member UInt8) := .grown [2, 3, 1]
    (tree.Reachable ∧ other.Reachable ∧
      (·.map Visit.row) <$> tree.traverse = (·.map Visit.row) <$> other.traverse) ∧
      (∃ order visits, tree.Surveys order visits) ∧ ∃ number, tree.Renumbers other number := by
  intro tree other
  have reachable : tree.Reachable := Tree.grown_reachable _
  have otherReachable : other.Reachable := Tree.grown_reachable _
  let rows : List (Member UInt8 × Color × Option Side × Nat) :=
    [(⟨2⟩, .black, none, 0), (⟨1⟩, .red, some .left, 1), (⟨3⟩, .red, some .right, 1)]
  have seen : (·.map Visit.row) <$> tree.traverse = .ok rows := rfl
  have seenThere : (·.map Visit.row) <$> other.traverse = .ok rows := rfl
  have same := seen.trans seenThere.symm
  obtain ⟨surveys, rebuilds⟩ := reachable_surveys reachable otherReachable
  exact ⟨⟨reachable, otherReachable, same⟩, surveys, rebuilds same⟩

end Containers
