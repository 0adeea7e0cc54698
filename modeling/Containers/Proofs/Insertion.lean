import Containers.Proofs.Growth
import Containers.Proofs.InsertRepair
import Containers.Proofs.Invariant

/-! Filing a value. The storage of the nodes grows first, which may be refused
before anything else was changed; then the new node, red and without children,
is hung where the search ended, and the repair runs. -/
namespace Containers

namespace Tree
variable {α : Type} {tree grown : Tree α} {node : Node α} {shape : Shape} {slot : Nat} {link : Link}

/-- The tree with one more node at the end of its arena, to which no link leads. -/
structure Grown (tree : Tree α) (node : Node α) (grown : Tree α) : Prop where
  items : grown.nodes.items = tree.nodes.items.push node
  sentinel : grown.sentinel = tree.sentinel
  root : grown.root = tree.root

theorem Grown.size (more : tree.Grown node grown) : grown.size = tree.size + 1 := by
  simp only [Tree.size, Storage.size, more.items, Array.size_push]

theorem Grown.values (more : tree.Grown node grown) : grown.values = tree.values.push node.value := by
  simp only [Tree.values, more.items, Array.map_push]

theorem Grown.record_old (more : tree.Grown node grown) (live : slot < tree.size) :
    grown.record (some slot) = tree.record (some slot) := by
  have bound : slot < tree.nodes.items.size := live
  simp only [record, more.items, Array.getElem?_push, Nat.ne_of_lt bound, ↓reduceIte]

theorem Grown.record_new (more : tree.Grown node grown) :
    grown.record (some tree.size) = node.links := by
  simp [record, more.items, Tree.size, Storage.size]

theorem Grown.filled_old (more : tree.Grown node grown) (live : slot < tree.size) :
    grown.values[slot]? = tree.values[slot]? := by
  have bound : slot < tree.values.size := tree.size_values.symm ▸ live
  simp only [more.values, Array.getElem?_push, Nat.ne_of_lt bound, ↓reduceIte]

theorem Grown.filled_new (more : tree.Grown node grown) :
    grown.values[tree.size]? = some node.value := by
  simp [more.values, ← tree.size_values]

theorem Grown.linked (more : tree.Grown node grown) (linked : tree.Linked shape) : grown.Linked shape where
  root := more.root.trans linked.root
  holds := linked.holds.congr fun slot inside => more.record_old (linked.live slot inside)
  distinct := linked.distinct
  live slot inside := more.size ▸ Nat.lt_succ_of_lt (linked.live slot inside)

theorem Grown.listing (more : tree.Grown node grown) {slots : List Nat}
    (live : ∀ slot ∈ slots, slot < tree.size) : grown.listing slots = tree.listing slots :=
  listing_congr fun slot inside => more.filled_old (live slot inside)

end Tree

namespace Relink
variable {α : Type} {tree : Tree α} {trail : Trail} {slot : Nat}

/-- A new node is hung where nothing hung before. -/
theorem hang_still (linked : tree.Linked (trail.plug .leaf))
    (own : tree.record (some slot) = .leaf trail.parent) (absent : slot ∉ trail.slots)
    (live : slot < tree.size) :
    Still (hang (some slot) trail.parent (trail.sideOr .right)) tree fun _ after =>
      after.Linked (trail.plug (.node .red .leaf slot .leaf)) ∧ tree.Kept after := by
  have hung : Still (hang (some slot) trail.parent (trail.sideOr .right)) tree fun _ after =>
      Changed tree (Trail.rehang tree.record trail (some slot))
        (rehangRoot tree.root trail (some slot)) after := by
    cases trail with
    | top => exact setRoot_still
    | under side hue parent sibling above => exact setChild_still linked.live_parent nofun side (some slot)
  refine hung.weaken ?_
  rintro _ after _ ⟨rfl, changed⟩
  have kept : tree.Kept after := by
    refine ⟨changed.engine, changed.values, ?_⟩
    have atNone := congrFun changed.record none
    rwa [Trail.rehang_none] at atNone
  refine ⟨rfl, replanted linked linked.parts.1 ⟨own, trivial, trivial⟩ (fun other => congrFun changed.record _)
    changed.root ?_ ?_, kept⟩
  · refine Trail.nodup_plug.mpr ⟨List.pairwise_singleton _ slot, linked.apart.2.1, ?_⟩
    intro other inside
    rwa [List.mem_singleton.mp inside]
  · intro other inside
    rw [kept.size]
    rcases Trail.mem_slots_plug.mp inside with itself | above
    · rwa [List.mem_singleton.mp itself]
    · exact linked.live other (Trail.mem_slots_plug.mpr (.inr above))

end Relink

namespace Tree
variable {α κ : Type} [Keyed α κ] [Ord κ] {host after : Host (Tree α)} {shape : Shape} {slot : Nat} {value : α}

/-- What filing a value leaves: nothing has changed if its key was present, and
otherwise the value is in a new slot behind all others. -/
inductive Filed (host : Host (Tree α)) (shape : Shape) (value : α) (slot : Nat) (after : Host (Tree α)) : Prop where
  | present {x : α} (inside : slot ∈ shape.slots) (filled : host.container.values[slot]? = some x)
      (equal : compare (Keyed.key x) (Keyed.key value) = .eq) (same : after = host)
  | added {trail : Trail} {shape' : Shape} (place : shape = trail.plug .leaf)
      (parts : Listing.Parts (Keyed.key value) (host.container.listing trail.before)
        (host.container.listing trail.after))
      (sound : after.container.Sound shape')
      (listing : after.container.listing shape'.slots =
        host.container.listing trail.before ++ value :: host.container.listing trail.after)
      (new : slot = host.container.size) (values : after.container.values = host.container.values.push value)

variable [Std.TransOrd κ]

/-- Linking the new node and repairing the tree files its value. -/
theorem place_sure {tree grown : Tree α} {trail : Trail} (pool : Pool) (sound : tree.Sound (trail.plug .leaf))
    (parts : Listing.Parts (Keyed.key value) (tree.listing trail.before) (tree.listing trail.after))
    (more : tree.Grown ⟨.leaf trail.parent, value⟩ grown) :
    Sure (do
        Op.alone (Relink.hang (some tree.size) trail.parent (trail.sideOr .right)).run
        Op.alone (Relink.repairRed (some tree.size)).run
        return tree.size : Op (Tree α) Nat) ⟨grown, pool⟩ fun slot after =>
      slot = tree.size ∧ ∃ shape', after.container.Sound shape' ∧
        after.container.listing shape'.slots = tree.listing trail.before ++ value :: tree.listing trail.after ∧
        after.container.values = tree.values.push value := by
  have absent : tree.size ∉ trail.slots := fun inside =>
    Nat.lt_irrefl _ (sound.linked.live tree.size (by simp [inside]))
  apply alone_then (Relink.hang_still (more.linked sound.linked) more.record_new absent
    (more.size ▸ Nat.lt_succ_self _)).runs
  rintro _ hung ⟨linked, kept⟩
  obtain ⟨total, balanced⟩ := sound.balanced
  have trouble := Trail.redAt_new balanced sound.black tree.size
  have sentinel : hung.sentinel = .sentinel := (kept.sentinel.trans more.sentinel).trans sound.sentinel
  refine alone_then (Relink.repairRed_safe linked rfl (by rw [sentinel]; rfl) trouble).runs ?_
  rintro _ after ⟨turns, -, whole, total, linked', slots, kept', balanced', black⟩
  have order : whole.slots = trail.before ++ tree.size :: trail.after := by
    rw [slots, Trail.slots_plug]
    simp [Shape.slots]
  have values : after.values = grown.values := kept'.values.trans kept.values
  have oldSlots : ∀ slot ∈ trail.before ++ trail.after, slot < tree.size := fun slot inside =>
    sound.linked.live slot (by rw [Trail.slots_plug]; simpa [Shape.slots] using inside)
  have before : after.listing trail.before = tree.listing trail.before := by
    rw [Tree.listing, values]
    exact more.listing fun slot inside => oldSlots slot (List.mem_append_left _ inside)
  have behind : after.listing trail.after = tree.listing trail.after := by
    rw [Tree.listing, values]
    exact more.listing fun slot inside => oldSlots slot (List.mem_append_right _ inside)
  have listing : after.listing whole.slots = tree.listing trail.before ++ value :: tree.listing trail.after := by
    rw [order, listing_append, listing_cons (values ▸ more.filled_new), before, behind]
  refine ⟨rfl, whole, ⟨linked', ?_, ?_, black, ⟨total, balanced'⟩, ?_⟩, listing, values.trans more.values⟩
  · intro slot within
    rw [kept'.size, kept.size, more.size] at within
    rw [order, List.mem_append, List.mem_cons]
    rcases Nat.lt_succ_iff_lt_or_eq.mp within with old | rfl
    · have := sound.full slot old
      simp only [Trail.slots_plug, Shape.slots, List.append_nil, List.mem_append] at this
      exact this.imp_right .inr
    · exact .inr (.inl rfl)
  · exact kept'.sentinel.trans sentinel
  · rw [listing]
    have sorted := sound.sorted
    simp only [Trail.slots_plug, Shape.slots, List.append_nil, listing_append] at sorted
    exact Listing.sorted_of_parts sorted parts

/-- After filing, the tree stands for the list with the value filed, and the slot
that was answered holds the value that the key is filed with. -/
theorem Filed.represents (filed : Filed host shape value slot after) (sound : host.container.Sound shape) :
    (∃ shape', after.container.Sound shape' ∧
      after.container.listing shape'.slots = Listing.file value (host.container.listing shape.slots)) ∧
    after.container.values[slot]? =
      Listing.find? (Keyed.key value) (Listing.file value (host.container.listing shape.slots)) := by
  cases filed with
  | @present x inside filled equal same =>
    subst same
    obtain ⟨front, back, slots⟩ := List.append_of_mem inside
    have listing : after.container.listing shape.slots =
        after.container.listing front ++ x :: after.container.listing back := by
      rw [slots, listing_append, listing_cons filled]
    have parts := Listing.parts_of_sorted (listing ▸ sound.sorted) equal
    have unchanged := Listing.file_found parts equal
    rw [listing, unchanged]
    exact ⟨⟨shape, sound, listing⟩, filled.trans (Listing.find?_found parts equal).symm⟩
  | @added trail shape' place parts sound' listing new values =>
    subst place new
    have before : host.container.listing (trail.plug .leaf).slots =
        host.container.listing trail.before ++ host.container.listing trail.after := by
      rw [Trail.slots_plug, Shape.slots, List.append_nil, listing_append]
    rw [before, Listing.file_vacant parts]
    refine ⟨⟨shape', sound', listing⟩, ?_⟩
    rw [Listing.find?_found parts Std.ReflCmp.compare_self, values, ← size_values, Array.getElem?_push_size]

/-- Filing a value either does what it should or changes nothing, and it needs
room only for a key that is absent. -/
theorem tryInsert_leads [Stored α] (sound : host.container.Sound shape) (value : α) :
    Leads (tryInsert value) host (fun slot after => Filed host shape value slot after)
      (fun fault after => after.container = host.container ∧
        Listing.find? (Keyed.key value) (host.container.listing shape.slots) = none ∧
        Vector.Stuck ⟨host.container.nodes, host.pool⟩ fault) := by
  obtain ⟨place, search, located⟩ := locate_located sound.linked sound.sorted (Keyed.key value)
  unfold tryInsert
  refine read_then search ?_
  cases located with
  | found inside filled same => exact .present inside filled same rfl
  | @vacant trail place parts =>
    subst place
    rw [leads_bind, onNodes, leads_part]
    refine (Vector.tryPush_leads ⟨host.container.nodes, host.pool⟩ _).mono ?_ ?_
    · rintro _ ⟨nodes, pool⟩ ⟨items, -⟩
      have more : host.container.Grown ⟨.leaf trail.parent, value⟩ { host.container with nodes } :=
        ⟨items, rfl, rfl⟩
      refine current_then ?_
      rw [more.size, Nat.add_sub_cancel]
      refine (place_sure pool sound parts more).weaken ?_
      rintro _ after ⟨rfl, shape', sound', listing, values⟩
      exact .added rfl parts sound' listing rfl values
    · rintro fault ⟨nodes, pool⟩ ⟨rfl, stuck⟩
      refine ⟨rfl, ?_, stuck⟩
      rw [Trail.slots_plug, Shape.slots, List.append_nil, listing_append]
      exact Listing.find?_vacant parts

end Tree

end Containers
