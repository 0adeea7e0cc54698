import Containers.Proofs.Depth

/-! Which slot holds which value. Slots are what a tree hands out, so what it
promises about them matters to its users: filing a value moves no other one, and
taking a value out moves two at most, one into the slot of the value and the one
at the end of the arena into the slot that is then free. -/
namespace Containers

namespace Tree
variable {α κ : Type} {tree before after later : Tree α} {hole left right : Shape} {trail : Trail} {hue : Color}
  {link : Link} {slot other : Nat} {x : α}

/-- A slot lies below a link if some way down from there passes it. -/
def Below (tree : Tree α) (link : Link) (slot : Nat) : Prop :=
  ∃ slots, tree.Way link slots ∧ slot ∈ slots

theorem Linked.below_iff (linked : tree.Linked (trail.plug hole)) : tree.Below hole.link slot ↔ slot ∈ hole.slots := by
  constructor
  · rintro ⟨slots, way, member⟩
    exact (linked.way_within way).2 slot member
  · exact linked.exists_way

/-- Every value is still in its slot, and new ones stand behind them. -/
def Extends (before after : Tree α) : Prop :=
  ∃ more, after.values = before.values ++ more

theorem Extends.refl (tree : Tree α) : tree.Extends tree := ⟨#[], Array.append_empty.symm⟩

theorem Extends.trans (first : before.Extends after) (second : after.Extends later) : before.Extends later := by
  obtain ⟨more, grown⟩ := first
  obtain ⟨further, grownAgain⟩ := second
  exact ⟨more ++ further, by rw [grownAgain, grown, Array.append_assoc]⟩

theorem Extends.value?_eq (extended : before.Extends after) (live : slot < before.size) :
    after.value? (some slot) = before.value? (some slot) := by
  obtain ⟨more, grown⟩ := extended
  have bound : slot < before.values.size := before.size_values.symm ▸ live
  rw [Tree.value?_eq, Tree.value?_eq, grown, Array.getElem?_append_left bound]

variable [Keyed α κ] [Ord κ] {host : Host (Tree α)} {shape : Shape} {values : List α} {value : α}

/-- No slot holds a value with this key. -/
def Lacks (tree : Tree α) (k : κ) : Prop :=
  ∀ slot x, tree.value? (some slot) = some x → compare (Keyed.key x) k ≠ .eq

/-- The slot whose node leaves the arena with the value in a slot: the same one if it
misses a child, and otherwise the one with the least key of those below on the right. -/
inductive GivesWay (tree : Tree α) (slot : Nat) : Nat → Prop
  | itself {side : Side} (missing : tree.child side (some slot) = .ok none) : GivesWay tree slot slot
  | successor {left right source : Nat} {x : α} (onLeft : tree.child .left (some slot) = .ok (some left))
      (onRight : tree.child .right (some slot) = .ok (some right)) (below : tree.Below (some right) source)
      (filled : tree.value? (some source) = some x)
      (least : ∀ other y, tree.Below (some right) other → other ≠ source → tree.value? (some other) = some y →
        compare (Keyed.key x) (Keyed.key y) = .lt) :
      GivesWay tree slot source

/-- What filing a value does to the slots: one that has its key is answered and nothing
changes; or the value is put behind all others; or there is no room and no slot changes. -/
inductive Placed (before : Host (Tree α)) (value : α) : Except Fault Nat → Host (Tree α) → Prop
  | present {slot : Nat} {x : α} (filled : before.container.value? (some slot) = some x)
      (equal : compare (Keyed.key x) (Keyed.key value) = .eq) : Placed before value (.ok slot) before
  | added {after : Host (Tree α)} (absent : before.container.Lacks (Keyed.key value))
      (grown : after.container.values = before.container.values.push value) :
      Placed before value (.ok before.container.size) after
  | refused {fault : Fault} {after : Host (Tree α)} (absent : before.container.Lacks (Keyed.key value))
      (kept : after.container = before.container) : Placed before value (.error fault) after

theorem Placed.extends {outcome : Except Fault Nat} {after : Host (Tree α)}
    (placed : Placed host value outcome after) : host.container.Extends after.container := by
  cases placed with
  | present filled equal => exact .refl _
  | added absent grown => exact ⟨#[value], grown⟩
  | refused absent kept => exact kept ▸ .refl _

/-- A key is in no slot if it is not found in the list. -/
theorem Sound.lacks (sound : tree.Sound shape) {k : κ} (absent : Listing.find? k (tree.listing shape.slots) = none) :
    tree.Lacks k := by
  intro slot x filled
  rw [value?_eq] at filled
  have member : x ∈ tree.listing shape.slots := sound.mem_listing.mpr (Array.mem_of_getElem? filled)
  simpa using List.find?_eq_none.mp absent x member

theorem Represents.isSome_of_not_lacks (represents : tree.Represents values) {k : κ} (present : ¬ tree.Lacks k) :
    (Listing.find? k values).isSome := by
  obtain ⟨shape, sound, rfl⟩ := represents
  by_contra absent
  exact present (sound.lacks (Option.not_isSome_iff_eq_none.mp absent))

/-- Of slots in order the first one holds the least key. -/
theorem key_lt_of_first {first : Nat} {rest : List Nat} {y : α} (sorted : Sorted (tree.listing (first :: rest)))
    (filled : tree.values[first]? = some x) (inside : other ∈ rest) (filledOther : tree.values[other]? = some y) :
    compare (Keyed.key x) (Keyed.key y) = .lt := by
  rw [listing_cons filled] at sorted
  exact (List.pairwise_cons.mp sorted).1 y (List.mem_filterMap.mpr ⟨other, inside, filledOther⟩)

/-- A node that misses a child gives way itself. -/
theorem givesWay_of_missing {side : Side} (missing : tree.child side (some slot) = .ok none) :
    tree.GivesWay slot other ↔ other = slot := by
  constructor
  · rintro (_ | ⟨onLeft, onRight⟩)
    · rfl
    · cases side with
      | left => rw [onLeft] at missing; cases missing
      | right => rw [onRight] at missing; cases missing
  · rintro rfl
    exact .itself missing

section Order
variable [Std.TransOrd κ]

/-- For a node with two children the first one below on the right gives way. -/
theorem Sound.givesWay_of_children {inner outer first : Nat} {rest : List Nat}
    (sound : tree.Sound (trail.plug (.node hue left slot right))) (onLeft : left.link = some outer)
    (onRight : right.link = some inner) (slots : right.slots = first :: rest) :
    tree.GivesWay slot other ↔ other = first := by
  obtain ⟨atLeft, atRight⟩ := sound.linked.children
  have leftLink : tree.child .left (some slot) = .ok (some outer) := onLeft ▸ atLeft.child_eq.1
  have rightLink : tree.child .right (some slot) = .ok (some inner) := onRight ▸ atRight.child_eq.1
  have below : ∀ other, tree.Below (some inner) other ↔ other = first ∨ other ∈ rest := fun other => by
    rw [← onRight, atRight.below_iff, slots, List.mem_cons]
  have part : right.slots.Sublist (trail.plug (.node hue left slot right)).slots :=
    List.IsInfix.sublist ⟨trail.before ++ left.slots ++ [slot], trail.after, by simp [Trail.slots_plug, Shape.slots]⟩
  have sorted : Sorted (tree.listing right.slots) := sound.sorted.sublist (part.filterMap _)
  have distinct : right.slots.Nodup := atRight.apart.1
  rw [slots] at sorted distinct part
  obtain ⟨y, filled⟩ := sound.linked.filled (part.mem List.mem_cons_self)
  constructor
  · rintro (⟨missing⟩ | ⟨-, rightNamed, inside, filledOther, least⟩)
    · rename_i side
      cases side with
      | left => rw [leftLink] at missing; cases missing
      | right => rw [rightLink] at missing; cases missing
    · rw [rightLink] at rightNamed
      cases rightNamed
      refine ((below other).mp inside).resolve_right fun behind => ?_
      have lower := key_lt_of_first sorted filled behind ((value?_eq other).symm.trans filledOther)
      have apart : first ≠ other := fun same => (List.nodup_cons.mp distinct).1 (same ▸ behind)
      have higher := least first y ((below first).mpr (.inl rfl)) apart ((value?_eq first).trans filled)
      rw [Std.OrientedCmp.gt_of_lt lower] at higher
      cases higher
  · rintro rfl
    refine .successor leftLink rightLink ((below other).mpr (.inl rfl)) ((value?_eq other).trans filled) ?_
    intro next x inside apart filledNext
    exact key_lt_of_first sorted filled (((below next).mp inside).resolve_left apart)
      ((value?_eq next).symm.trans filledNext)

/-- The slot that gives way is the one that departs from the shape. -/
theorem Sound.givesWay_iff (sound : tree.Sound (trail.plug (.node hue left slot right))) :
    tree.GivesWay slot other ↔ other = left.departing slot right := by
  obtain ⟨atLeft, atRight⟩ := sound.linked.children
  cases left with
  | leaf => exact givesWay_of_missing atLeft.child_eq.1
  | node leftHue a b c =>
    cases right with
    | leaf => exact givesWay_of_missing atRight.child_eq.1
    | node rightHue d e f =>
      obtain ⟨first, rest, slots⟩ : ∃ first rest, (Shape.node rightHue d e f).slots = first :: rest :=
        List.exists_cons_of_ne_nil (by simp [Shape.slots])
      rw [sound.givesWay_of_children rfl rfl slots, Shape.departing, slots, List.headD_cons]

/-- Filing a value puts it behind all others or changes no slot. -/
theorem tryInsert_placed [Stored α] (sound : host.container.Sound shape) (value : α) :
    Leads (tryInsert value) host (fun slot after => Placed host value (.ok slot) after)
      fun fault after => Placed host value (.error fault) after := by
  apply (tryInsert_leads sound value).mono
  · rintro slot after filed
    cases filed with
    | present inside filled equal same =>
      subst same
      exact .present ((value?_eq slot).trans filled) equal
    | @added trail shape' place parts sound' listing new values =>
      subst place new
      refine .added (sound.lacks ?_) values
      rw [Trail.slots_plug, Shape.slots, List.append_nil, listing_append]
      exact Listing.find?_vacant parts
  · rintro fault after ⟨kept, absent, -⟩
    exact .refused (sound.lacks absent) kept

omit [Std.TransOrd κ] in
/-- The values after one was taken out: the one in the departing slot stands in for it, and
the last one fills that slot. -/
theorem Erased.values_eq {after : Host (Tree α)} (erased : Erased host shape slot value after)
    (sound : host.container.Sound shape) :
    ∃ trail hue left right, shape = Trail.plug trail (.node hue left slot right) ∧
      after.container.values = Slots.swapErase
        (Slots.copy host.container.values (left.departing slot right) slot) (left.departing slot right) := by
  obtain ⟨trail, hue, left, right, rfl, moved⟩ := erased.values
  refine ⟨trail, hue, left, right, rfl, ?_⟩
  generalize isSource : left.departing slot right = source at moved ⊢
  have live : ∀ other ∈ (trail.plug (.node hue left slot right)).slots, other < host.container.values.size :=
    fun other inside => host.container.size_values.symm ▸ sound.linked.live other inside
  have slotLive : slot < host.container.values.size := live slot (by simp [Shape.slots])
  have sourceLive : source < host.container.values.size := by
    by_cases same : source = slot
    · exact same ▸ slotLive
    · obtain ⟨rest, slots⟩ := Shape.departing_next isSource.symm same
      exact live source (by simp [Shape.slots, slots])
  have size : host.container.values.size - 1 = after.container.size := by
    rw [size_values, erased.size, Nat.add_sub_cancel]
  have copied : ∀ other, (Slots.copy host.container.values source slot)[other]? =
      if other = slot then host.container.values[source]? else host.container.values[other]? :=
    fun other => Slots.getElem?_copy slotLive sourceLive
  apply Array.ext_getElem?
  intro other
  by_cases within : other < after.container.size
  · rw [Slots.getElem?_swapErase (by rwa [Slots.size_copy]) (by rwa [Slots.size_copy, size]), copied, copied,
      Slots.size_copy, size, moved other within _ rfl]
    by_cases atSource : other = source
    · rw [if_pos atSource, if_pos atSource]
    · rw [if_neg atSource, if_neg atSource]
  · have outside : after.container.size ≤ other := Nat.le_of_not_lt within
    rw [Array.getElem?_eq_none (by rwa [size_values]),
      Array.getElem?_eq_none (by rwa [Slots.size_swapErase, Slots.size_copy, size])]

end Order

/-- Which slot holds which value. Filing a value, in both ways, moves no other value. Taking
out the value in a slot answers it and leaves one slot less: the value in the slot that gives
way is copied onto it, then the last value is moved into the slot that gave way. -/
structure KeepsSlots [Stored α] (host : Host (Tree α)) : Prop where
  filing : ∀ value : α, ∀ op ∈ [Tree.tryInsert value, Tree.insert value],
    Placed host value (op.step host).outcome (op.step host).after
  taking : ∀ slot < host.container.size, ∃ source,
    (∀ other, host.container.GivesWay slot other ↔ other = source) ∧
      Sure (eraseNode (some slot)) host fun x after =>
        host.container.value? (some slot) = some x ∧ host.container.size = after.container.size + 1 ∧
          after.container.values = Slots.swapErase (Slots.copy host.container.values source slot) source

/-- The commands that take values out or begin anew. All others leave every value in its slot. -/
def Command.Displaces : Command α κ → Prop
  | .erase _ | .remove _ | .eraseNode _ | .clear | .renew | .renewOver _ _ | .renewFrom _ => True
  | _ => False

variable [Stored α] [Std.TransOrd κ]

theorem Represents.keepsSlots (represents : host.container.Represents values) : KeepsSlots host := by
  obtain ⟨shape, sound, -⟩ := represents
  constructor
  · intro value op member
    have filing := tryInsert_placed sound value
    simp only [List.mem_cons, List.not_mem_nil, or_false] at member
    rcases member with rfl | rfl
    · exact (leads_iff_step _ (Placed host value)).mp filing
    · refine (leads_iff_step _ (Placed host value)).mp
        ((leads_orAbort _).mpr (filing.mono (fun _ _ placed => placed) ?_))
      rintro fault after (_ | _ | ⟨absent, kept⟩)
      exact .refused absent kept
  · intro slot live
    obtain ⟨trail, hue, left, right, rfl⟩ := Trail.exists_plug (sound.full slot live)
    refine ⟨left.departing slot right, fun other => sound.givesWay_iff, (eraseNode_sure sound live).weaken ?_⟩
    intro x after erased
    -- the shape is cut at the slot twice, and both cuts name the same slot that departs
    obtain ⟨trail', hue', left', right', same, moved⟩ := erased.values_eq sound
    have departs : left'.departing slot right' = left.departing slot right :=
      sound.givesWay_iff.mp ((same ▸ sound).givesWay_iff.mpr rfl)
    exact ⟨(value?_eq slot).trans erased.filled, erased.size, departs ▸ moved⟩

variable [Shown κ] [Shown α]

/-- A command that takes nothing out leaves every value in its slot. -/
theorem perform_extends (represents : host.container.Represents values) (command : Command α κ)
    (stays : ¬ command.Displaces) :
    host.container.Extends (command.perform.step host).after.container := by
  refine (leads_iff_step command.perform fun _ after => host.container.Extends after.container).mp ?_
  obtain ⟨shape, sound, -⟩ := represents
  cases command with
  | insert value =>
    refine (leads_map _ _).mpr ((leads_orAbort _).mpr ((tryInsert_placed sound value).mono ?_ ?_))
    · exact fun _ _ placed => placed.extends
    · exact fun _ _ placed => placed.extends
  | tryInsert value =>
    refine (leads_map _ _).mpr ((tryInsert_placed sound value).mono ?_ ?_)
    · exact fun _ _ placed => placed.extends
    · exact fun _ _ placed => placed.extends
  | get _ | contains _ | iterate _ | text | ask _ =>
    exact (leads_map _ _).mpr (look_leads (fun _ => .refl _) fun _ => .refl _)
  | _ => exact absurd trivial stays

/-- Along a run that takes nothing out every slot keeps its value. -/
theorem states_extend (represents : host.container.Represents values) (commands : List (Command α κ))
    (stay : ∀ command ∈ commands, ¬ command.Displaces) :
    ∀ later ∈ Session.states Command.perform commands host, host.container.Extends later.container := by
  have keeps : ∀ command : Command α κ, ¬ command.Displaces → ∀ later : Host (Tree α),
      (host.container.Extends later.container ∧ ∃ values, later.container.Represents values) →
      host.container.Extends (command.perform.step later).after.container ∧
        ∃ values, (command.perform.step later).after.container.Represents values := by
    rintro command stays later ⟨extended, values, represents⟩
    exact ⟨extended.trans (perform_extends represents command stays), _, (perform_agrees represents command).2⟩
  intro later member
  exact (Session.states_keep_of _ keeps commands stay ⟨.refl _, values, represents⟩ later member).1

end Tree

section Runs
variable {α κ ν : Type} [Keyed α κ] [Ord κ] [Std.TransOrd κ] [Shown κ] [Shown ν] [Shown α] [Stored κ]
  [Stored ν] [Stored α]

/-- In every state of all runs of trees and of maps it is settled which slot holds which value
after the next change, and until something is taken out a slot goes on holding the same value. -/
theorem reachable_keepsSlots (engine : Engine) (pool : Pool) (commands : List (Tree.Command α κ))
    (mapCommands : List (Map.Command κ ν)) :
    (∀ host ∈ Session.states Tree.Command.perform commands ⟨{ nodes := ⟨engine, #[]⟩ }, pool⟩,
      Tree.KeepsSlots host ∧ ∀ rest : List (Tree.Command α κ), (∀ command ∈ rest, ¬ command.Displaces) →
        ∀ later ∈ Session.states Tree.Command.perform rest host, ∀ slot < host.container.size,
          later.container.value? (some slot) = host.container.value? (some slot)) ∧
    ∀ host ∈ Session.states Map.Command.perform mapCommands ⟨{ nodes := ⟨engine, #[]⟩ }, pool⟩,
      Tree.KeepsSlots host := by
  constructor
  · intro host member
    obtain ⟨values, represents⟩ := Tree.states_represent engine pool commands host member
    refine ⟨represents.keepsSlots, fun rest stay later reached slot live => ?_⟩
    exact (Tree.states_extend represents rest stay later reached).value?_eq live
  · intro host member
    obtain ⟨entries, represents⟩ := Map.states_represent engine pool mapCommands host member
    exact represents.keepsSlots

end Runs

/-- Keys that differ in the case of a letter only are equal in the order. -/
theorem reachable_keepsSlots_caseless : Std.TransOrd Caseless ∧
    ∀ host ∈ Session.states Tree.Command.perform
        [.insert (⟨"b"⟩, (1 : Int64)), .insert (⟨"a"⟩, 2), .insert (⟨"c"⟩, 3), .insert (⟨"B"⟩, 4), .eraseNode (some 0)]
        ⟨{ nodes := ⟨.heap .a 0 0, #[]⟩ }, ⟨⟨.unlimited, 0, []⟩, ⟨.unlimited, 0, []⟩⟩⟩,
      Tree.KeepsSlots (κ := Caseless) host ∧
        ∀ later ∈ Session.states Tree.Command.perform [.tryInsert (⟨"d"⟩, 5), .get ⟨"A"⟩] host,
          ∀ slot < host.container.size, later.container.value? (some slot) = host.container.value? (some slot) := by
  refine ⟨inferInstance, fun host member => ?_⟩
  obtain ⟨keeps, stays⟩ := (reachable_keepsSlots (ν := Int64) (.heap .a 0 0) _ _ []).1 host member
  exact ⟨keeps, stays _ (by simp [Tree.Command.Displaces])⟩

end Containers
