import Containers.Proofs.MapRuns
import Containers.Proofs.Validation
import Mathlib.Algebra.Group.Nat.Defs
import Mathlib.Data.List.Forall2
import Mathlib.Data.Nat.Log

/-! How deep a tree can be. The black height is a lower bound on the size, since
the shape is full down to it, and an upper bound on the depth, since black nodes
make up at least half of every way down. So no way down, and no walk along one,
passes more nodes than twice the logarithm of the size. -/
namespace Containers

namespace Shape
variable {shape : Shape} {rank : Nat}

/-- A shape is full down to its black height. -/
theorem Balanced.two_pow_le (balanced : shape.Balanced rank) : 2 ^ rank ≤ shape.slots.length + 1 := by
  induction shape generalizing rank with
  | leaf =>
    obtain rfl : rank = 0 := balanced
    exact Nat.le_refl 1
  | node hue left slot right ihl ihr =>
    obtain ⟨below, leftBalanced, rightBalanced, -, isRank⟩ := balanced.below_node
    have atLeft := ihl leftBalanced
    have atRight := ihr rightBalanced
    have longer : 2 ^ rank ≤ 2 * 2 ^ below := by
      rw [← Nat.pow_succ']
      apply Nat.pow_le_pow_right Nat.zero_lt_two
      split at isRank <;> omega
    simp only [slots, List.length_append, List.length_cons]
    omega

/-- No way down has more red nodes than black ones, a red root apart. -/
theorem Balanced.height_le (balanced : shape.Balanced rank) :
    shape.height ≤ 2 * rank + if shape.color = .red then 1 else 0 := by
  induction shape generalizing rank with
  | leaf => exact Nat.zero_le _
  | node hue left slot right ihl ihr =>
    obtain ⟨below, leftBalanced, rightBalanced, redBlack, isRank⟩ := balanced.below_node
    have atLeft := ihl leftBalanced
    have atRight := ihr rightBalanced
    simp only [height, color]
    cases hue with
    | red =>
      obtain ⟨leftBlack, rightBlack⟩ := redBlack rfl
      simp only [leftBlack, rightBlack, reduceCtorEq, ↓reduceIte] at atLeft atRight isRank ⊢
      omega
    | black =>
      have ofColor : ∀ color : Color, (if color = .red then 1 else 0) ≤ 1 := fun color => by cases color <;> decide
      have leftAtMost := ofColor left.color
      have rightAtMost := ofColor right.color
      simp only [reduceCtorEq, ↓reduceIte] at isRank ⊢
      omega

/-- A shape with a black root is at most twice as deep as a full one of its size. -/
theorem Balanced.height_le_log (balanced : shape.Balanced rank) (black : shape.color = .black) :
    shape.height ≤ 2 * Nat.log 2 (shape.slots.length + 1) := by
  have height := balanced.height_le
  have atMost : rank ≤ Nat.log 2 (shape.slots.length + 1) := Nat.le_log_of_pow_le Nat.one_lt_two balanced.two_pow_le
  simp only [black, reduceCtorEq, ↓reduceIte] at height
  omega

/-- A station of a traversal: a slot, the side on which it hangs, and its depth. -/
structure Station where
  slot : Nat
  side : Option Side
  depth : Nat

/-- The stations of a subtree, each before those below it and left before right. -/
def stations (side : Option Side) (depth : Nat) : Shape → List Station
  | leaf => []
  | node _ left slot right =>
    ⟨slot, side, depth⟩ :: (left.stations (some .left) (depth + 1) ++ right.stations (some .right) (depth + 1))

theorem length_stations (shape : Shape) (side : Option Side) (depth : Nat) :
    (shape.stations side depth).length = shape.slots.length := by
  induction shape generalizing side depth with
  | leaf => rfl
  | node hue left slot right ihl ihr =>
    simp only [stations, slots, List.length_append, List.length_cons, ihl, ihr]
    omega

/-- No station lies deeper than the shape is high. -/
theorem depth_lt {side : Option Side} {depth : Nat} {station : Station}
    (member : station ∈ shape.stations side depth) : station.depth < depth + shape.height := by
  induction shape generalizing side depth with
  | leaf => cases member
  | node hue left slot right ihl ihr =>
    simp only [stations, List.mem_cons, List.mem_append] at member
    simp only [height]
    rcases member with rfl | member | member
    · simp only
      omega
    · have := ihl member
      omega
    · have := ihr member
      omega

end Shape

/-- The side on which the place hangs, unless it is the root. -/
def Trail.side? : Trail → Option Side
  | .top => none
  | .under side _ _ _ _ => some side

/-- The rounds that a search needs which passes so many nodes: it takes one more
to see that a place is vacant. -/
def Place.rounds (nodes : Nat) : Place → Nat
  | .found _ => nodes
  | .vacant _ _ => nodes + 1

namespace Tree
variable {α κ : Type} {tree : Tree α} {shape hole : Shape} {trail : Trail} {link : Link} {slot steps more : Nat}
  {side : Side}

/-- A way down from a link: the slots of the nodes that it passes, as far as it goes. -/
inductive Way (tree : Tree α) : Link → List Nat → Prop
  | stop (link : Link) : Way tree link []
  | down {slot : Nat} {side : Side} {lower : Link} {slots : List Nat}
      (child : tree.child side (some slot) = .ok lower) (rest : Way tree lower slots) :
      Way tree (some slot) (slot :: slots)

/-- A way down stays inside the subtree and is no longer than it is high. -/
theorem Linked.way_within {slots : List Nat} (linked : tree.Linked (trail.plug hole))
    (way : tree.Way hole.link slots) : slots.length ≤ hole.height ∧ ∀ slot ∈ slots, slot ∈ hole.slots := by
  generalize from_ : hole.link = link at way
  induction way generalizing trail hole with
  | stop => exact ⟨Nat.zero_le _, nofun⟩
  | @down slot side lower slots child rest ih =>
    rcases Shape.eq_leaf_or_join side hole with rfl | ⟨own, near, far, isNode⟩
    · cases from_
    rw [isNode] at linked from_ ⊢
    rw [Shape.link_join, Option.some.injEq] at from_
    subst from_
    have isLower : near.link = lower := Except.ok.inj (linked.down.child_eq.1.symm.trans child)
    obtain ⟨shorter, inside⟩ := ih linked.down isLower
    constructor
    · cases side <;> simp only [Shape.join, Shape.height, List.length_cons] <;> omega
    · simp only [Shape.mem_slots_join, List.mem_cons]
      rintro other (rfl | member)
      · exact .inl rfl
      · exact .inr (.inl (inside other member))

/-- Some way down leads to every slot of a subtree. -/
theorem Linked.exists_way (linked : tree.Linked (trail.plug hole)) (inside : slot ∈ hole.slots) :
    ∃ slots, tree.Way hole.link slots ∧ slot ∈ slots := by
  induction hole generalizing trail with
  | leaf => cases inside
  | node hue left own right ihl ihr =>
    obtain ⟨atLeft, atRight⟩ := linked.children
    simp only [Shape.slots, List.mem_append, List.mem_cons] at inside
    rcases inside with inLeft | rfl | inRight
    · obtain ⟨slots, way, member⟩ := ihl atLeft inLeft
      exact ⟨own :: slots, .down atLeft.child_eq.1 way, List.mem_cons_of_mem _ member⟩
    · exact ⟨[slot], .down atLeft.child_eq.1 (.stop _), List.mem_cons_self⟩
    · obtain ⟨slots, way, member⟩ := ihr atRight inRight
      exact ⟨own :: slots, .down atRight.child_eq.1 way, List.mem_cons_of_mem _ member⟩

/-! Walks that go down need no more rounds than there are nodes on the way. -/

/-- A walk to one side that ends goes on ending there with more rounds. -/
theorem outermostFrom_mono {last : Nat} (ends : tree.outermostFrom side steps slot = .ok last)
    (enough : steps ≤ more) : tree.outermostFrom side more slot = .ok last := by
  induction steps generalizing slot more with
  | zero => cases ends
  | succ steps ih =>
    obtain ⟨more, rfl⟩ : ∃ n, more = n + 1 := ⟨more - 1, by omega⟩
    simp only [outermostFrom, bind, Except.bind] at ends ⊢
    cases lower : tree.child side (some slot) with
    | error fault => simp only [lower, reduceCtorEq] at ends
    | ok link =>
      simp only [lower] at ends ⊢
      cases link with
      | none => exact ends
      | some next => exact ih ends (by omega)

/-- The ends of the order are found within the height of the shape. -/
theorem Linked.extreme_within (linked : tree.Linked shape) (side : Side) (enough : shape.height ≤ steps) :
    ∃ link, tree.extreme side = .ok link ∧ ∀ slot, tree.root = some slot →
      some <$> tree.outermostFrom side steps slot = .ok link := by
  have atTop : tree.Linked (Trail.top.plug shape) := linked
  unfold extreme
  cases root : tree.root with
  | none => exact ⟨none, rfl, nofun⟩
  | some slot =>
    obtain ⟨-, -, last, -, ends, -⟩ := outermostFrom_eq side atTop (linked.root.symm.trans root) (Nat.le_refl _)
    refine ⟨some last, ?_, ?_⟩
    · simp only [outermost, outermostFrom_mono ends (Nat.le_of_lt atTop.height_lt)]
      rfl
    · rintro _ ⟨rfl⟩
      rw [outermostFrom_mono ends enough]
      rfl

section Search
variable [Keyed α κ] [Ord κ] {k : κ} {parent : Link}

/-- A search that ends goes on ending there with more rounds. -/
theorem locateFrom_mono {place : Place} (ends : tree.locateFrom k steps link parent side = .ok place)
    (enough : steps ≤ more) : tree.locateFrom k more link parent side = .ok place := by
  induction steps generalizing link parent side more with
  | zero => cases ends
  | succ steps ih =>
    obtain ⟨more, rfl⟩ : ∃ n, more = n + 1 := ⟨more - 1, by omega⟩
    have atMost : steps ≤ more := by omega
    cases link with
    | none => exact ends
    | some slot =>
      simp only [locateFrom, bind, Except.bind] at ends ⊢
      cases own : tree.keyAt slot with
      | error fault => simp only [own, reduceCtorEq] at ends
      | ok key =>
        simp only [own] at ends ⊢
        split at ends
        · cases lower : tree.child .right (some slot) with
          | error fault => simp only [lower, reduceCtorEq] at ends
          | ok link =>
            simp only [lower] at ends ⊢
            exact ih ends atMost
        · cases lower : tree.child .left (some slot) with
          | error fault => simp only [lower, reduceCtorEq] at ends
          | ok link =>
            simp only [lower] at ends ⊢
            exact ih ends atMost
        · exact ends

/-- A search passes no more nodes than the subtree is high. -/
theorem locateFrom_within (linked : tree.Linked (trail.plug hole)) (k : κ) (enough : hole.height ≤ steps) :
    ∃ place, tree.locateFrom k (place.rounds steps) hole.link parent side = .ok place := by
  induction hole generalizing trail steps parent side with
  | leaf => exact ⟨.vacant parent side, rfl⟩
  | node hue left slot right ihl ihr =>
    simp only [Shape.height] at enough
    obtain ⟨steps, rfl⟩ : ∃ n, steps = n + 1 := ⟨steps - 1, by omega⟩
    have inside : slot ∈ (trail.plug (.node hue left slot right)).slots := by simp [Shape.slots]
    obtain ⟨x, filled⟩ := linked.filled inside
    obtain ⟨atLeft, atRight⟩ := linked.children
    -- one round passes this node, whichever place is reached below it
    have round : ∀ place : Place, place.rounds (steps + 1) = place.rounds steps + 1 := fun place => by
      cases place <;> rfl
    simp only [round, Shape.link, locateFrom, keyAt_eq filled, atLeft.child_eq.1, atRight.child_eq.1, bind,
      Except.bind]
    split
    · exact ihr atRight (by omega)
    · exact ihl atLeft (by omega)
    · exact ⟨.found slot, rfl⟩

theorem Linked.locate_within (linked : tree.Linked shape) (k : κ) (enough : shape.height ≤ steps) :
    ∃ place, tree.locate k = .ok place ∧
      tree.locateFrom k (place.rounds steps) tree.root none .right = .ok place := by
  have atTop : tree.Linked (Trail.top.plug shape) := linked
  obtain ⟨place, ends⟩ : ∃ place, tree.locateFrom k (place.rounds shape.height) shape.link none .right = .ok place :=
    locateFrom_within atTop k (Nat.le_refl _)
  rw [← linked.root] at ends
  have height := atTop.height_lt
  refine ⟨place, locateFrom_mono ends ?_, locateFrom_mono ends ?_⟩
  · cases place <;> simp only [Place.rounds] <;> omega
  · cases place <;> simp only [Place.rounds] <;> omega

end Search

/-! The traversal. -/

/-- A visit shows the node of its station, the side and the depth. -/
structure Shows (tree : Tree α) (station : Shape.Station) (visit : Visit α) : Prop where
  node : tree.nodes.items[station.slot]? = some visit.node
  side : visit.side = station.side
  depth : visit.depth = station.depth

/-- A node hangs on a side just when its parent's link on that side leads to it. -/
theorem Linked.hangs_on {own : Side} {hue : Color} {parent : Nat} {sibling : Shape} {above : Trail}
    (linked : tree.Linked ((Trail.under own hue parent sibling above).plug hole)) (named : hole.link = some slot)
    (side : Side) : ∃ link, tree.child side (some parent) = .ok link ∧ (link = some slot ↔ own = side) := by
  obtain ⟨near, far⟩ := linked.child_eq
  by_cases same : own = side
  · subst same
    exact ⟨hole.link, near, iff_of_true named rfl⟩
  · obtain rfl : own.opposite = side := by cases own <;> cases side <;> first | rfl | exact absurd rfl same
    have apart : sibling.link ≠ some slot := fun shared =>
      linked.apart.2.2 slot (Shape.mem_slots_of_link named)
        (by simp [Trail.slots, Shape.mem_slots_of_link shared])
    exact ⟨sibling.link, far, iff_of_false apart same⟩

/-- A traversal visits the stations of a subtree one after the other. -/
theorem visitsWithin_eq (linked : tree.Linked (trail.plug hole)) (depth : Nat) (enough : hole.height ≤ steps) :
    ∃ visits, tree.visitsWithin steps hole.link depth = .ok visits ∧
      List.Forall₂ tree.Shows (hole.stations trail.side? depth) visits := by
  induction hole generalizing trail steps depth with
  | leaf => cases steps <;> exact ⟨[], rfl, .nil⟩
  | node hue left slot right ihl ihr =>
    simp only [Shape.height] at enough
    obtain ⟨rounds, rfl⟩ : ∃ n, steps = n + 1 := ⟨steps - 1, by omega⟩
    have leftEnough : left.height ≤ rounds := by omega
    have rightEnough : right.height ≤ rounds := by omega
    obtain ⟨atLeft, atRight⟩ := linked.children
    obtain ⟨below, onLeft, showsLeft⟩ := ihl atLeft (depth + 1) leftEnough
    obtain ⟨beside, onRight, showsRight⟩ := ihr atRight (depth + 1) rightEnough
    have live : slot < tree.size := linked.live slot (by simp [Shape.slots])
    obtain ⟨node, found⟩ := exists_node live
    have own := linked.parts.2.1
    rw [record_eq found] at own
    have first : tree.Shows ⟨slot, trail.side?, depth⟩ ⟨node, trail.side?, depth⟩ := ⟨found, rfl, rfl⟩
    refine ⟨⟨node, trail.side?, depth⟩ :: (below ++ beside), ?_, .cons first (List.rel_append showsLeft showsRight)⟩
    simp only [Shape.link_node, visitsWithin, linked.parent_eq rfl, nodeAt, found, own, onLeft, onRight, bind,
      Except.bind, pure, Except.pure]
    cases trail with
    | top => rfl
    | under side dye parent sibling above =>
      obtain ⟨link, leftLink, hangs⟩ := linked.hangs_on rfl .left
      simp only [Trail.parent, leftLink, hangs, Trail.side?]
      cases side with
      | left => rw [if_pos rfl]
      | right => rw [if_neg (by decide)]

/-- A traversal visits every node, and none is deeper than the shape is high. -/
theorem Linked.traverse_within (linked : tree.Linked shape) :
    ∃ visits, tree.traverse = .ok visits ∧ visits.length = shape.slots.length ∧
      ∀ visit ∈ visits, visit.depth + 1 ≤ shape.height := by
  have atTop : tree.Linked (Trail.top.plug shape) := linked
  obtain ⟨visits, ends, shows⟩ := visitsWithin_eq atTop 0 (Nat.le_of_lt atTop.height_lt)
  refine ⟨visits, ?_, ?_, ?_⟩
  · rw [traverse, linked.root]
    exact ends
  · rw [← shows.length_eq, Shape.length_stations]
  · intro visit member
    obtain ⟨index, bound, isVisit⟩ := List.mem_iff_getElem.mp member
    have station := List.getElem_mem (shows.length_eq ▸ bound)
    have shown := shows.get (shows.length_eq ▸ bound) bound
    have := Shape.depth_lt station
    simp only [List.get_eq_getElem, isVisit] at shown
    rw [shown.depth]
    omega

variable [Keyed α κ] [Ord κ]

/-- A tree is shallow: its size is at least exponential in the black height that the
check answers, no visited node is deeper than twice that, and so no way down passes more
nodes than twice the logarithm of the size. Neither does a search for a key, nor a walk
to an end of the order. -/
structure Shallow (tree : Tree α) : Prop where
  black : ∃ rank, tree.validate = .ok (rank + 1) ∧ 2 ^ rank - 1 ≤ tree.size ∧
    ∃ visits, tree.traverse = .ok visits ∧ visits.length = tree.size ∧
      ∀ visit ∈ visits, visit.depth + 1 ≤ 2 * rank
  ways : ∀ slots, tree.Way tree.root slots → slots.length ≤ 2 * Nat.log 2 (tree.size + 1)
  searches : ∀ k : κ, ∃ place, tree.locate k = .ok place ∧
    tree.locateFrom k (place.rounds (2 * Nat.log 2 (tree.size + 1))) tree.root none .right = .ok place
  ends : ∀ side, ∃ link, tree.extreme side = .ok link ∧ ∀ slot, tree.root = some slot →
    some <$> tree.outermostFrom side (2 * Nat.log 2 (tree.size + 1)) slot = .ok link

theorem Represents.shallow {values : List α} (represents : tree.Represents values) : tree.Shallow := by
  obtain ⟨shape, sound, -⟩ := represents
  obtain ⟨rank, balanced⟩ := sound.balanced
  have linked := sound.linked
  have atTop : tree.Linked (Trail.top.plug shape) := linked
  have count : shape.slots.length = tree.size := by rw [sound.perm.length_eq, List.length_range]
  have black : shape.height ≤ 2 * rank := by simpa [sound.black] using balanced.height_le
  have deep : shape.height ≤ 2 * Nat.log 2 (tree.size + 1) := count ▸ balanced.height_le_log sound.black
  refine ⟨⟨rank, sound.validate_eq balanced, ?_, ?_⟩, ?_, ?_, ?_⟩
  · have := balanced.two_pow_le
    omega
  · obtain ⟨visits, traversed, length, shallow⟩ := linked.traverse_within
    exact ⟨visits, traversed, length.trans count, fun visit member => (shallow visit member).trans black⟩
  · intro slots way
    rw [linked.root] at way
    exact (atTop.way_within way).1.trans deep
  · exact fun k => linked.locate_within k deep
  · exact fun side => linked.extreme_within side deep

end Tree

section Runs
variable {α κ ν : Type} [Keyed α κ] [Ord κ] [Std.TransOrd κ] [Shown κ] [Shown ν] [Shown α] [Stored κ]
  [Stored ν] [Stored α]

/-- The trees and the maps of all runs are shallow in every state. -/
theorem reachable_shallow (engine : Engine) (pool : Pool) (commands : List (Tree.Command α κ))
    (mapCommands : List (Map.Command κ ν)) :
    (∀ host ∈ Session.states Tree.Command.perform commands ⟨{ nodes := ⟨engine, #[]⟩ }, pool⟩,
      host.container.Shallow) ∧
    ∀ host ∈ Session.states Map.Command.perform mapCommands ⟨{ nodes := ⟨engine, #[]⟩ }, pool⟩,
      Tree.Shallow host.container := by
  constructor
  · intro host member
    obtain ⟨values, represents⟩ := Tree.states_represent engine pool commands host member
    exact represents.shallow
  · intro host member
    obtain ⟨entries, represents⟩ := Map.states_represent engine pool mapCommands host member
    exact represents.shallow

end Runs

/-- Keys that differ in the case of a letter only are equal in the order. -/
theorem reachable_shallow_caseless : Std.TransOrd Caseless ∧
    ∀ host ∈ Session.states Map.Command.perform
        [.insert ⟨"a"⟩ (1 : Int64), .insert ⟨"b"⟩ 2, .insert ⟨"c"⟩ 3, .insert ⟨"B"⟩ 4, .remove ⟨"A"⟩]
        ⟨{ nodes := ⟨.heap .a 0 0, #[]⟩ }, ⟨⟨.unlimited, 0, []⟩, ⟨.unlimited, 0, []⟩⟩⟩,
      Tree.Shallow (κ := Caseless) host.container :=
  ⟨inferInstance, (reachable_shallow (α := Member Caseless) (.heap .a 0 0) _ [] _).2⟩

end Containers
