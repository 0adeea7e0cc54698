import Containers.Proofs.Outcome
import Containers.Proofs.Trail
import Containers.Tree.Basic

/-! Arenas that spell out a shape. A node's record names the links of its two
subtrees, its parent and its colour; the records of one subtree do not depend
on anything outside it except the parent, so a change of a few records keeps
every part of the shape that those records do not belong to. -/
namespace Containers

namespace Links
variable {side : Side} {near far parent link : Link} {hue : Color}

/-- A record with `near` on the given side and `far` on the other. -/
def join (side : Side) (near far parent : Link) (color : Color) : Links :=
  match side with
  | .left => ⟨near, far, parent, color⟩
  | .right => ⟨far, near, parent, color⟩

@[simp] theorem child_join : (join side near far parent hue).child side = near := by
  cases side <;> rfl

@[simp] theorem child_opposite_join :
    (join side near far parent hue).child side.opposite = far := by
  cases side <;> rfl

@[simp] theorem parent_join : (join side near far parent hue).parent = parent := by
  cases side <;> rfl

@[simp] theorem color_join : (join side near far parent hue).color = hue := by
  cases side <;> rfl

@[simp] theorem withChild_join :
    (join side near far parent hue).withChild side link = join side link far parent hue := by
  cases side <;> rfl

@[simp] theorem withChild_opposite_join :
    (join side near far parent hue).withChild side.opposite link = join side near link parent hue := by
  cases side <;> rfl

/-- A record with another parent. -/
def withParent (parent : Link) (links : Links) : Links := { links with parent }

/-- A record with another colour. -/
def withColor (color : Color) (links : Links) : Links := { links with color }

@[simp] theorem color_withChild (side : Side) (link : Link) (links : Links) :
    (links.withChild side link).color = links.color := by
  cases side <;> rfl

@[simp] theorem withParent_join :
    (join side near far parent hue).withParent link = join side near far link hue := by
  cases side <;> rfl

end Links

/-- What is recorded behind each link. -/
abbrev Records := Link → Links

namespace Records

/-- The records with one of them changed. -/
def change (records : Records) (link : Link) (f : Links → Links) : Records :=
  fun other => if other = link then f (records link) else records other

variable {records : Records} {link other : Link} {f : Links → Links}

@[simp] theorem change_same : records.change link f link = f (records link) := by simp [change]

theorem change_other (different : other ≠ link) : records.change link f other = records other := by
  simp [change, different]

/-- A change that keeps the colour of a record keeps all colours. -/
theorem color_change (keeps : ∀ links, (f links).color = links.color) :
    (records.change link f other).color = (records other).color := by
  by_cases same : other = link
  · subst same
    rw [change_same, keeps]
  · rw [change_other same]

/-- The records after a node was told its parent; the sentinel is told nothing. -/
def entrust (records : Records) (link parent : Link) : Records :=
  if link = none then records else records.change link (Links.withParent parent)

theorem entrust_other (different : other ≠ link) :
    records.entrust link parent other = records other := by
  unfold entrust
  split
  · rfl
  · exact change_other different

theorem entrust_none : records.entrust link parent none = records none := by
  unfold entrust
  split
  · rfl
  · rename_i named
    exact change_other (Ne.symm named)

theorem color_entrust : (records.entrust link parent other).color = (records other).color := by
  unfold entrust
  split
  · rfl
  · exact color_change fun _ => rfl

end Records

namespace Shape
variable {records records' : Records} {parent : Link} {side : Side} {hue : Color} {slot : Nat}
  {near far : Shape}

/-- The records of these slots spell out the shape below this parent. -/
def Holds (records : Records) (parent : Link) : Shape → Prop
  | leaf => True
  | node color left slot right =>
    records (some slot) = ⟨left.link, right.link, parent, color⟩ ∧
      left.Holds records (some slot) ∧ right.Holds records (some slot)

theorem holds_join : (join side hue slot near far).Holds records parent ↔
    records (some slot) = .join side near.link far.link parent hue ∧
      near.Holds records (some slot) ∧ far.Holds records (some slot) := by
  cases side with
  | left => exact Iff.rfl
  | right => exact and_congr_right fun _ => and_comm

/-- Only the records of its own slots matter to a shape. -/
theorem Holds.congr {shape : Shape} (holds : shape.Holds records parent)
    (same : ∀ slot ∈ shape.slots, records' (some slot) = records (some slot)) :
    shape.Holds records' parent := by
  induction shape generalizing parent with
  | leaf => trivial
  | node hue left slot right ihl ihr =>
    obtain ⟨own, leftHolds, rightHolds⟩ := holds
    refine ⟨(same slot (by simp [slots])).trans own, ihl leftHolds ?_, ihr rightHolds ?_⟩
    · exact fun inner member => same inner (by simp [slots, member])
    · exact fun inner member => same inner (by simp [slots, member])

/-- A shape says what is recorded in each of its slots. -/
theorem Holds.record_eq {shape : Shape} (holds : shape.Holds records parent)
    (holds' : shape.Holds records' parent) (inside : slot ∈ shape.slots) :
    records' (some slot) = records (some slot) := by
  induction shape generalizing parent with
  | leaf => cases inside
  | node hue left own right ihl ihr =>
    obtain ⟨here, leftHolds, rightHolds⟩ := holds
    obtain ⟨here', leftHolds', rightHolds'⟩ := holds'
    simp only [slots, List.mem_append, List.mem_cons] at inside
    rcases inside with inside | rfl | inside
    · exact ihl leftHolds leftHolds' inside
    · rw [here, here']
    · exact ihr rightHolds rightHolds' inside

theorem Holds.parent_eq {shape : Shape} (holds : shape.Holds records parent)
    (named : shape.link = some slot) : (records (some slot)).parent = parent := by
  cases shape with
  | leaf => cases named
  | node hue left other right => cases named; rw [holds.1]

theorem Holds.color_eq {shape : Shape} (holds : shape.Holds records parent)
    (black : (records none).color = .black) : (records shape.link).color = shape.color := by
  cases shape with
  | leaf => exact black
  | node hue left other right => exact congrArg Links.color holds.1

/-- The record of a slot outside a shape does not matter to it. -/
theorem Holds.change {shape : Shape} (holds : shape.Holds records parent) (outside : slot ∉ shape.slots)
    (f : Links → Links) : shape.Holds (records.change (some slot) f) parent := by
  apply holds.congr
  intro inner member
  apply Records.change_other
  rintro ⟨rfl⟩
  exact outside member

/-- A subtree hung below another parent: only its root's record changes. -/
theorem Holds.reparent {shape : Shape} (holds : shape.Holds records parent)
    (distinct : shape.slots.Nodup) (new : Link) :
    shape.Holds (records.change shape.link (Links.withParent new)) new := by
  cases shape with
  | leaf => trivial
  | node hue left slot right =>
    obtain ⟨own, leftHolds, rightHolds⟩ := holds
    obtain ⟨notLeft, notRight, -⟩ := nodup_node.mp distinct
    exact ⟨by simp [link, own, Links.withParent], leftHolds.change notLeft _, rightHolds.change notRight _⟩

theorem Holds.entrust {shape : Shape} (holds : shape.Holds records parent)
    (distinct : shape.slots.Nodup) (new : Link) :
    shape.Holds (records.entrust shape.link new) new := by
  unfold Records.entrust
  split
  · rename_i missing
    rw [link_eq_none.mp missing]
    trivial
  · exact holds.reparent distinct new

/-- Telling another shape's root its parent does not matter to a shape apart from it. -/
theorem Holds.entrust_other {shape other : Shape} (holds : shape.Holds records parent)
    (apart : ∀ slot ∈ shape.slots, slot ∉ other.slots) (new : Link) :
    shape.Holds (records.entrust other.link new) parent := by
  apply holds.congr
  intro inner member
  exact Records.entrust_other (link_ne (apart inner member))

/-- A painted subtree: only its root's record changes. -/
theorem Holds.repaint {shape : Shape} (holds : shape.Holds records parent)
    (distinct : shape.slots.Nodup) (dye : Color) :
    (shape.paint dye).Holds (records.change shape.link (Links.withColor dye)) parent := by
  cases shape with
  | leaf => trivial
  | node hue left slot right =>
    obtain ⟨own, leftHolds, rightHolds⟩ := holds
    obtain ⟨notLeft, notRight, -⟩ := nodup_node.mp distinct
    exact ⟨by simp [link, own, Links.withColor], leftHolds.change notLeft _, rightHolds.change notRight _⟩

end Shape

namespace Trail
variable {records records' : Records} {side : Side} {hue : Color} {slot : Nat} {sibling : Shape}
  {above : Trail} {hole link : Link}

/-- The records along a trail spell it out, with this link at the place. -/
def Holds (records : Records) : Trail → Link → Prop
  | top, _ => True
  | under side color slot sibling above, hole =>
    records (some slot) = .join side hole sibling.link above.parent color ∧
      sibling.Holds records (some slot) ∧ above.Holds records (some slot)

/-- A whole shape is spelled out by its parts. -/
theorem holds_plug {trail : Trail} {hole : Shape} :
    (trail.plug hole).Holds records none ↔
      trail.Holds records hole.link ∧ hole.Holds records trail.parent := by
  induction trail generalizing hole with
  | top => simp [plug, Holds, parent]
  | under side hue slot sibling above ih =>
    simp only [plug, ih, Holds, Shape.holds_join, Shape.link_join, parent]
    constructor
    · rintro ⟨aboveHolds, own, holeHolds, siblingHolds⟩
      exact ⟨⟨own, siblingHolds, aboveHolds⟩, holeHolds⟩
    · rintro ⟨⟨own, siblingHolds, aboveHolds⟩, holeHolds⟩
      exact ⟨aboveHolds, own, holeHolds, siblingHolds⟩

theorem Holds.congr {trail : Trail} (holds : trail.Holds records hole)
    (same : ∀ slot ∈ trail.slots, records' (some slot) = records (some slot)) :
    trail.Holds records' hole := by
  induction trail generalizing hole with
  | top => trivial
  | under side hue slot sibling above ih =>
    obtain ⟨own, siblingHolds, aboveHolds⟩ := holds
    refine ⟨(same slot (by simp [slots])).trans own, siblingHolds.congr ?_, ih aboveHolds ?_⟩
    · exact fun inner member => same inner (by simp [slots, member])
    · exact fun inner member => same inner (by simp [slots, member])

theorem Holds.change {trail : Trail} (holds : trail.Holds records hole) (outside : slot ∉ trail.slots)
    (f : Links → Links) : trail.Holds (records.change (some slot) f) hole := by
  apply holds.congr
  intro inner member
  apply Records.change_other
  rintro ⟨rfl⟩
  exact outside member

theorem Holds.entrust_other {trail : Trail} {other : Shape} (holds : trail.Holds records hole)
    (apart : ∀ slot ∈ trail.slots, slot ∉ other.slots) (new : Link) :
    trail.Holds (records.entrust other.link new) hole := by
  apply holds.congr
  intro inner member
  exact Records.entrust_other (Shape.link_ne (apart inner member))

/-- The records after another link was put at the place: only the record of the
node above changes. -/
def rehang (records : Records) : Trail → Link → Records
  | top, _ => records
  | under side _ slot _ _, new => records.change (some slot) (Links.withChild side new)

theorem rehang_other {trail : Trail} (apart : ∀ slot ∈ trail.slots, link ≠ some slot) :
    rehang records trail new link = records link := by
  cases trail with
  | top => rfl
  | under side hue slot sibling above =>
    exact Records.change_other (apart slot (by simp [slots]))

/-- Hanging something at a place changes the record of the node above it at most. -/
theorem rehang_beside {trail : Trail} (differs : link ≠ trail.parent) :
    rehang records trail new link = records link := by
  cases trail with
  | top => rfl
  | under side hue slot sibling above => exact Records.change_other differs

theorem color_rehang {trail : Trail} : (rehang records trail new link).color = (records link).color := by
  cases trail with
  | top => rfl
  | under side hue slot sibling above => exact Records.color_change (Links.color_withChild side new)

theorem rehang_none {trail : Trail} : rehang records trail new none = records none :=
  rehang_other fun _ _ => (Option.some_ne_none _).symm

theorem Holds.rehang {trail : Trail} (holds : trail.Holds records hole)
    (distinct : trail.slots.Nodup) (new : Link) :
    trail.Holds (Trail.rehang records trail new) new := by
  cases trail with
  | top => trivial
  | under side hue slot sibling above =>
    obtain ⟨own, siblingHolds, aboveHolds⟩ := holds
    simp only [slots, List.nodup_cons, List.mem_append, not_or] at distinct
    obtain ⟨⟨notSibling, notAbove⟩, -⟩ := distinct
    exact ⟨by simp [Trail.rehang, own], siblingHolds.change notSibling _, aboveHolds.change notAbove _⟩

end Trail

/-- Hanging something at a place does not matter to a shape that has no slot above it. -/
theorem Shape.Holds.rehang {records : Records} {parent : Link} {shape : Shape} {trail : Trail}
    (holds : shape.Holds records parent) (apart : ∀ slot ∈ shape.slots, slot ∉ trail.slots) (new : Link) :
    shape.Holds (Trail.rehang records trail new) parent := by
  apply holds.congr
  intro inner member
  apply Trail.rehang_other
  rintro other outside ⟨rfl⟩
  exact apart inner member outside

end Containers
