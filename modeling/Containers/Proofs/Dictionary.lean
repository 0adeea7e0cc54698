import Containers.Map.Basic
import Containers.Proofs.Insertion
import Containers.Proofs.Removal

/-! Trees and maps as dictionaries. Every operation by key does to the tree what
the operation on sorted lists does to the list that the tree stands for. -/
namespace Containers

namespace Tree
variable {α κ : Type} [Keyed α κ] [Ord κ] {tree : Tree α} {shape : Shape} {slot : Nat} {value x : α} {k : κ}

/-- The order parts at a slot that holds a value. -/
theorem Sound.split_at (inside : slot ∈ shape.slots) (filled : tree.values[slot]? = some x) :
    ∃ front back, shape.slots = front ++ slot :: back ∧
      tree.listing shape.slots = tree.listing front ++ x :: tree.listing back := by
  obtain ⟨front, back, slots⟩ := List.append_of_mem inside
  exact ⟨front, back, slots, by rw [slots, listing_append, listing_cons filled]⟩

/-- Another value with the same key in one slot keeps the tree in order. -/
theorem Sound.revalue {after : Tree α} {y : α} (sound : tree.Sound shape) (inside : slot ∈ shape.slots)
    (record : after.record = tree.record) (root : after.root = tree.root) (size : after.size = tree.size)
    (filled : tree.values[slot]? = some x) (filledNow : after.values[slot]? = some y)
    (others : ∀ other, other ≠ slot → after.values[other]? = tree.values[other]?)
    (sameKey : Keyed.key y = Keyed.key x) :
    after.Sound shape ∧ ∃ front back, tree.listing shape.slots = front ++ x :: back ∧
      after.listing shape.slots = front ++ y :: back := by
  obtain ⟨front, back, slots, listing⟩ := split_at inside filled
  have distinct := sound.linked.distinct
  rw [slots, List.perm_middle.nodup_iff, List.nodup_cons, List.mem_append, not_or] at distinct
  have unmoved : ∀ part : List Nat, slot ∉ part → after.listing part = tree.listing part := fun part absent =>
    listing_congr fun other member => others other fun same => absent (same ▸ member)
  have listingNow : after.listing shape.slots = tree.listing front ++ y :: tree.listing back := by
    rw [slots, listing_append, listing_cons filledNow, unmoved front distinct.1.1, unmoved back distinct.1.2]
  refine ⟨⟨⟨root.trans sound.linked.root, by rw [record]; exact sound.linked.holds, sound.linked.distinct, ?_⟩,
    ?_, ?_, sound.black, sound.balanced, ?_⟩, _, _, listing, listingNow⟩
  · exact fun other member => size ▸ sound.linked.live other member
  · exact fun other within => sound.full other (size ▸ within)
  · exact (congrFun record none).trans sound.sentinel
  · have sorted := sound.sorted
    rw [listing, Listing.sorted_middle] at sorted
    rw [listingNow, Listing.sorted_middle, sameKey]
    exact sorted

section Lookup
variable [Std.TransOrd κ]

/-- A key is found in the slot whose value the list has for it. -/
theorem Sound.find?_eq (sound : tree.Sound shape) (k : κ) :
    ∃ link, tree.find? k = .ok link ∧ tree.value? link = Listing.find? k (tree.listing shape.slots) ∧
      ∀ slot, link = some slot → slot ∈ shape.slots := by
  obtain ⟨place, search, located⟩ := locate_located sound.linked sound.sorted k
  simp only [find?, search, bind, Except.bind]
  cases located with
  | @found slot x inside filled same =>
    obtain ⟨front, back, -, listing⟩ := split_at inside filled
    have parts := Listing.parts_of_sorted (listing ▸ sound.sorted) same
    refine ⟨some slot, rfl, ?_, fun _ named => Option.some.inj named ▸ inside⟩
    rw [value?_eq, filled, listing, Listing.find?_found parts same]
  | @vacant trail place parts =>
    subst place
    refine ⟨none, rfl, ?_, nofun⟩
    rw [Trail.slots_plug, Shape.slots, List.append_nil, listing_append, Listing.find?_vacant parts]
    rfl

theorem Sound.get?_eq (sound : tree.Sound shape) (k : κ) :
    tree.get? k = .ok (Listing.find? k (tree.listing shape.slots)) := by
  obtain ⟨link, found, value, -⟩ := sound.find?_eq k
  rw [get?, found, ← value]
  rfl

theorem Sound.contains_eq (sound : tree.Sound shape) (k : κ) :
    tree.contains k = .ok (Listing.find? k (tree.listing shape.slots)).isSome := by
  obtain ⟨link, found, value, inside⟩ := sound.find?_eq k
  rw [contains, found, ← value]
  cases link with
  | none => rfl
  | some slot =>
    obtain ⟨x, filled⟩ := sound.linked.filled (inside slot rfl)
    rw [value?_eq, filled]
    rfl

end Lookup

section Filing
variable [Std.TransOrd κ] [Stored α] {host : Host (Tree α)} {values : List α}

/-- Filing a value: the slot that is answered holds what is filed under the key
then, and a key that was present changes nothing. -/
theorem tryInsert_files (represents : host.container.Represents values) (value : α) :
    Leads (tryInsert value) host
      (fun slot after => after.container.Represents (Listing.file value values) ∧
        after.container.value? (some slot) = Listing.find? (Keyed.key value) (Listing.file value values) ∧
        ((Listing.find? (Keyed.key value) values).isSome → after = host))
      (fun fault after => after.container = host.container ∧ Listing.find? (Keyed.key value) values = none ∧
        Vector.Stuck ⟨host.container.nodes, host.pool⟩ fault) := by
  obtain ⟨shape, sound, rfl⟩ := represents
  refine (tryInsert_leads sound value).mono (fun slot after filed => ?_) fun fault after failed => failed
  obtain ⟨represents', holds⟩ := filed.represents sound
  refine ⟨represents', (value?_eq slot).trans holds, fun present => ?_⟩
  cases filed with
  | present inside filled equal same => exact same
  | @added trail shape' place parts =>
    subst place
    rw [Trail.slots_plug, Shape.slots, List.append_nil, listing_append, Listing.find?_vacant parts] at present
    cases present

/-- As before, but a refusal ends the run. -/
theorem insert_files (represents : host.container.Represents values) (value : α) :
    Leads (insert value) host
      (fun slot after => after.container.Represents (Listing.file value values) ∧
        after.container.value? (some slot) = Listing.find? (Keyed.key value) (Listing.file value values) ∧
        ((Listing.find? (Keyed.key value) values).isSome → after = host))
      (fun fault after => after.container = host.container ∧ Listing.find? (Keyed.key value) values = none ∧
        ∃ cause, fault = Fault.abort cause ∧ Vector.Stuck ⟨host.container.nodes, host.pool⟩ cause) := by
  unfold insert
  rw [leads_orAbort]
  refine (tryInsert_files represents value).mono (fun _ _ filed => filed) ?_
  exact fun fault after ⟨kept, absent, stuck⟩ => ⟨kept, absent, fault, rfl, stuck⟩

end Filing

section Removal
variable {host : Host (Tree α)} {values : List α}

theorem clear_sure (host : Host (Tree α)) :
    Sure clear host fun _ after => after.container.Represents ([] : List α) ∧ after.pool = host.pool := by
  have none : ((host.container.nodes.items.extract 0 (min 0 host.container.nodes.items.size)).size) = 0 := by simp
  exact ⟨⟨.leaf, sound_leaf rfl none rfl, rfl⟩, rfl⟩

variable [Std.TransOrd κ]

/-- The value that was taken out is the one filed under its key. -/
theorem Erased.represents {shape : Shape} {value : α} {after : Host (Tree α)}
    (erased : Erased host shape slot value after) (sound : host.container.Sound shape)
    (same : compare (Keyed.key value) k = .eq) :
    after.container.Represents (Listing.drop k (host.container.listing shape.slots)) := by
  obtain ⟨shape', front, back, sound', listing, listing'⟩ := erased.order
  have parts := Listing.parts_of_sorted (listing ▸ sound.sorted) same
  exact ⟨shape', sound', by rw [listing', listing, Listing.drop_found parts same]⟩

variable [Stored α]

/-- Taking out the value filed under a key. -/
theorem remove_sure (represents : host.container.Represents values) (k : κ) :
    Sure (remove k) host fun answer after => answer = Listing.find? k values ∧
      after.container.Represents (Listing.drop k values) ∧ after.pool = host.pool := by
  obtain ⟨shape, sound, rfl⟩ := represents
  obtain ⟨link, found, value, inside⟩ := sound.find?_eq k
  unfold remove
  refine read_then found ?_
  cases link with
  | none =>
    have absent : Listing.find? k (host.container.listing shape.slots) = none := value.symm
    exact ⟨absent.symm, ⟨shape, sound, (Listing.drop_absent absent).symm⟩, rfl⟩
  | some slot =>
    rw [leads_map]
    refine (eraseNode_sure sound (sound.linked.live slot (inside slot rfl))).weaken fun x after erased => ?_
    rw [value?_eq, erased.filled] at value
    have same : compare (Keyed.key x) k = .eq := by simpa using List.find?_some value.symm
    exact ⟨value, erased.represents sound same, erased.pool⟩

/-- Dropping the value filed under a key. -/
theorem erase_sure (represents : host.container.Represents values) (k : κ) :
    Sure (erase k) host fun count after => count = (if (Listing.find? k values).isSome then 1 else 0) ∧
      after.container.Represents (Listing.drop k values) ∧ after.pool = host.pool := by
  have counts : (erase k : Op (Tree α) Nat) =
      (fun answer : Option α => if answer.isSome then 1 else 0) <$> remove k := by
    simp only [erase, remove, map_bind]
    congr 1
    funext link
    cases link <;> simp
  rw [counts]
  rw [Sure, leads_map]
  apply (remove_sure represents k).weaken
  rintro answer after ⟨isAnswer, rest⟩
  exact ⟨by rw [isAnswer], rest⟩

end Removal

end Tree

namespace Map
variable {κ ν : Type}

section Revalued
variable {tree : Map κ ν} {slot other : Nat} {spelling : κ} {old : ν}

/-- A map with another value in one slot, beside the key that is there. -/
def revalued (tree : Map κ ν) (slot : Nat) (value : ν) : Map κ ν :=
  { tree with
    nodes.items := tree.nodes.items.modify slot fun node => { node with value := (node.value.1, value) } }

theorem revalued_record (tree : Map κ ν) (slot : Nat) (value : ν) :
    Tree.record (tree.revalued slot value) = Tree.record tree := by
  funext link
  cases link with
  | none => rfl
  | some other =>
    simp only [Tree.record, revalued, Array.getElem?_modify]
    split
    · cases tree.nodes.items[other]? <;> rfl
    · rfl

theorem revalued_size (tree : Map κ ν) (slot : Nat) (value : ν) :
    Tree.size (tree.revalued slot value) = Tree.size tree := by
  simp [Tree.size, Storage.size, revalued]

theorem revalued_filled (value : ν) (filled : (Tree.values tree)[slot]? = some (spelling, old)) :
    (Tree.values (tree.revalued slot value))[slot]? = some (spelling, value) := by
  rw [Tree.values_eq, Option.map_eq_some_iff] at filled
  obtain ⟨node, found, isValue⟩ := filled
  simp [Tree.values_eq, revalued, Array.getElem?_modify, found, isValue]

theorem revalued_other (value : ν) (different : other ≠ slot) :
    (Tree.values (tree.revalued slot value))[other]? = (Tree.values tree)[other]? := by
  simp [Tree.values_eq, revalued, Array.getElem?_modify, Ne.symm different]

/-- Two maps that differ in values only: the key in every slot, every link and
colour, the sentinel and the buffer are the same. -/
structure Revalued (before after : Map κ ν) : Prop where
  engine : after.nodes.engine = before.nodes.engine
  root : after.root = before.root
  record : Tree.record after = Tree.record before
  keys : (Tree.values after).map Prod.fst = (Tree.values before).map Prod.fst

theorem Revalued.refl (map : Map κ ν) : map.Revalued map := ⟨rfl, rfl, rfl, rfl⟩

theorem revalued_differs (tree : Map κ ν) (slot : Nat) (value : ν) : tree.Revalued (tree.revalued slot value) where
  engine := rfl
  root := rfl
  record := revalued_record tree slot value
  keys := by
    refine Array.ext_getElem? fun other => ?_
    by_cases same : other = slot
    · subst same
      cases found : tree.nodes.items[other]? <;>
        simp [Tree.values_eq, revalued, Array.getElem?_map, Array.getElem?_modify, found]
    · rw [Array.getElem?_map, Array.getElem?_map, revalued_other value same]

end Revalued

variable [Ord κ] [Std.TransOrd κ] {host : Host (Map κ ν)} {entries : List (κ × ν)}

/-- Overwriting the value filed under a key changes nothing else. -/
theorem setValue_sure (represents : Tree.Represents host.container entries) (k : κ) (value : ν) :
    Sure (setValue k value) host fun answer after => answer = (Listing.find? k entries).map Prod.snd ∧
      Tree.Represents after.container (Listing.overwrite k value entries) ∧
      (host.container.Revalued after.container ∧ after.pool = host.pool) ∧
      (Listing.find? k entries = none → after = host) := by
  obtain ⟨shape, sound, rfl⟩ := represents
  obtain ⟨link, found, isValue, inside⟩ := sound.find?_eq k
  unfold setValue
  refine current_then (read_then found ?_)
  cases link with
  | none =>
    have absent : Listing.find? k (Tree.listing host.container shape.slots) = none := isValue.symm
    exact ⟨by rw [absent]; rfl, ⟨shape, sound, (Listing.overwrite_absent absent value).symm⟩,
      ⟨.refl host.container, rfl⟩, fun _ => rfl⟩
  | some slot =>
    obtain ⟨⟨spelling, old⟩, filled⟩ := sound.linked.filled (inside slot rfl)
    rw [Tree.value?_eq, filled] at isValue
    have same : compare (Keyed.key (spelling, old)) k = .eq := by simpa using List.find?_some isValue.symm
    obtain ⟨sound', front, back, listing, listing'⟩ := sound.revalue (inside slot rfl)
      (revalued_record host.container slot value) rfl (revalued_size host.container slot value) filled
      (revalued_filled value filled) (fun other => revalued_other value) rfl
    have parts := Listing.parts_of_sorted (k := k) (listing ▸ sound.sorted) same
    refine ⟨?_, ⟨shape, sound', ?_⟩, ⟨revalued_differs host.container slot value, rfl⟩, fun absent => ?_⟩
    · rw [Tree.value?_eq, filled, ← isValue]
    · rw [listing, Listing.overwrite_found parts same]
      exact listing'
    · rw [← isValue] at absent
      cases absent

variable [Stored κ] [Stored ν]

/-- Filing a value under a key, whether the key is present or not. A key that is
present needs no room, and only the value under it changes. -/
theorem tryInsert_stores (represents : Tree.Represents host.container entries) (k : κ) (value : ν) :
    Leads (tryInsert k value) host
      (fun answer after => answer = (Listing.find? k entries).map Prod.snd ∧
        Tree.Represents after.container (Listing.store k value entries) ∧
        ((Listing.find? k entries).isSome → host.container.Revalued after.container ∧ after.pool = host.pool))
      (fun fault after => after.container = host.container ∧ Listing.find? k entries = none ∧
        Vector.Stuck ⟨host.container.nodes, host.pool⟩ fault) := by
  unfold tryInsert
  refine (setValue_sure represents k value).andThen ?_
  rintro answer after ⟨isAnswer, represents', revalues, unchanged⟩
  cases found : Listing.find? k entries with
  | some entry =>
    rw [found] at isAnswer
    subst isAnswer
    refine ⟨rfl, ?_, fun _ => revalues⟩
    rwa [Listing.store, found]
  | none =>
    rw [found] at isAnswer
    obtain rfl := (unchanged found).symm
    subst isAnswer
    rw [Option.map_none, leads_bind]
    refine (Tree.tryInsert_files represents (k, value)).mono ?_ ?_
    · rintro slot after ⟨filed, -⟩
      refine ⟨rfl, ?_, nofun⟩
      rwa [Listing.store, found]
    · exact fun fault after ⟨kept, _, stuck⟩ => ⟨kept, rfl, stuck⟩

/-- As before, but a refusal ends the run. -/
theorem insert_stores (represents : Tree.Represents host.container entries) (k : κ) (value : ν) :
    Leads (insert k value) host
      (fun answer after => answer = (Listing.find? k entries).map Prod.snd ∧
        Tree.Represents after.container (Listing.store k value entries) ∧
        ((Listing.find? k entries).isSome → host.container.Revalued after.container ∧ after.pool = host.pool))
      (fun fault after => after.container = host.container ∧ Listing.find? k entries = none ∧
        ∃ cause, fault = Fault.abort cause ∧ Vector.Stuck ⟨host.container.nodes, host.pool⟩ cause) := by
  unfold insert
  rw [leads_orAbort]
  refine (tryInsert_stores represents k value).mono (fun _ _ stored => stored) ?_
  exact fun fault after ⟨kept, absent, stuck⟩ => ⟨kept, absent, fault, rfl, stuck⟩

theorem remove_sure (represents : Tree.Represents host.container entries) (k : κ) :
    Sure (remove k) host fun answer after => answer = (Listing.find? k entries).map Prod.snd ∧
      Tree.Represents after.container (Listing.drop k entries) := by
  refine (leads_map _ _).mpr ((Tree.remove_sure represents k).weaken ?_)
  exact fun answer after ⟨isAnswer, represents', _⟩ => ⟨by rw [isAnswer], represents'⟩

end Map

end Containers
