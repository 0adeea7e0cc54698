import Containers.Proofs.Growth
import Containers.Proofs.Slots

/-! What the operations of a vector do to the list that it holds. Beside each
operation stands what a list does: what is left of it and what is answered, or the
fault of the condition on places and counts that does not hold. An operation meets
this, or a larger buffer that it asked for was not granted. -/
namespace Containers.Vector
variable {α β γ : Type}

/-- The vector holds these elements in a buffer that has room for them. -/
structure Holds (v : Vector α) (items : List α) : Prop where
  items_eq : v.items.toList = items
  fits : v.Fits

/-- The operation leaves and answers what is expected of a list. If a fault is
expected, nothing changes; otherwise the operation can only fail for the given
reasons. -/
def Meets (op : Op (Vector α) β) (host : Host (Vector α)) (expected : Except Fault (List α × β))
    (ungranted : Fault → Host (Vector α) → Prop) : Prop :=
  Leads op host (fun answer after => ∃ left, expected = .ok (left, answer) ∧ Holds after.container left)
    (fun fault after => expected = .error fault ∧ after = host ∨
      (∃ result, expected = .ok result) ∧ ungranted fault after)

/-- How a command ended that is expected to edit a list: it breaks the same condition and
changes nothing, or it answers the same and leaves the same elements, or growth is not granted. -/
inductive Settles (before : Host (Vector α)) (expected : Except Fault (List α × β))
    (ungranted : Fault → Host (Vector α) → Prop) : Step (Vector α) β → Prop where
  | broken {fault : Fault} (breaks : expected = .error fault) :
      Settles before expected ungranted ⟨.error fault, before⟩
  | answered {left : List α} {answer : β} {after : Host (Vector α)} (edits : expected = .ok (left, answer))
      (holds : Holds after.container left) : Settles before expected ungranted ⟨.ok answer, after⟩
  | ungranted {result : List α × β} {fault : Fault} {after : Host (Vector α)} (edits : expected = .ok result)
      (reason : ungranted fault after) : Settles before expected ungranted ⟨.error fault, after⟩

/-- The list after a command that was expected to edit it. -/
def leaves (items : List α) (expected : Except Fault (List α × β)) (outcome : Except Fault β) : List α :=
  match expected, outcome with
  | .ok (left, _), .ok _ => left
  | _, _ => items

namespace Reference

/-- An element goes in before the one at a place, or at the end. -/
def insert (items : List α) (position : Nat) (x : α) : Except Fault (List α × Nat) :=
  if position ≤ items.length then .ok (items.take position ++ x :: items.drop position, position)
  else .error (.panicked (.insertIndex position items.length))

/-- Copies go in before the element at a place, unless there would be more elements
than can be counted. -/
def insertMany (items : List α) (position n : Nat) (x : α) : Except Fault (List α × Nat) :=
  if position ≤ items.length then
    if n = 0 ∨ items.length + n ≤ maxCount then
      .ok (items.take position ++ (List.replicate n x ++ items.drop position), position)
    else .error (.panicked .capacityOverflow)
  else .error (.panicked (.insertIndex position items.length))

/-- The element at a place comes out. -/
def remove (items : List α) (position : Nat) : Except Fault (List α × α) :=
  match items[position]? with
  | some x => .ok (items.eraseIdx position, x)
  | none => .error (.panicked (.eraseIndex position items.length))

/-- The elements of a range come out. No condition is put on an empty range. -/
def eraseRange (items : List α) (start stop : Nat) : Except Fault (List α × Nat) :=
  if stop ≤ start then .ok (items, items.length)
  else if stop ≤ items.length then .ok (items.take start ++ items.drop stop, start)
  else .error (.panicked (.eraseRangeEnd stop items.length))

/-- The element at a place comes out, and the last one takes its place. -/
def swapErase (items : List α) (position : Nat) : Except Fault (List α × α) :=
  match items[position]?, items.getLast? with
  | some x, some last => .ok (items.dropLast.set position last, x)
  | _, _ => .error (.panicked (.eraseIndex position items.length))

/-- The first elements stay, and copies fill up what is missing behind them. -/
def resize (items : List α) (size : Nat) (x : α) : List α :=
  items.take size ++ List.replicate (size - items.length) x

/-- The first elements stay, and copies that are put in at the end fill up what is
missing behind them. -/
def resizeWith (items : List α) (size : Nat) (x : α) : Except Fault (List α × Unit) :=
  if size ≤ max items.length maxCount then .ok (resize items size x, ())
  else .error (.panicked .capacityOverflow)

/-- The element at a place, or the fault of there being none. -/
def read (items : List α) (position : Nat) (fault : Fault) : Except Fault (List α × α) :=
  match items[position]? with
  | some x => .ok (items, x)
  | none => .error fault

/-- The element at a place is overwritten, unless there is none. -/
def write (items : List α) (position : Nat) (x : α) (fault : Fault) : Except Fault (List α × Unit) :=
  if position < items.length then .ok (items.set position x, ()) else .error fault

end Reference

section Reasons
variable [Stored α]

/-- The fault of an operation that does not return refusals. -/
def Aborting (ungranted : Fault → Host (Vector α) → Prop) (fault : Fault) (after : Host (Vector α)) : Prop :=
  ∃ cause, fault = cause.abort ∧ ungranted cause after

/-- There is no room for one more element, and nothing changed. -/
def Unpushed (host : Host (Vector α)) (fault : Fault) (after : Host (Vector α)) : Prop :=
  after.container = host.container ∧ Stuck host fault

/-- There is no room for so many elements, and nothing changed. -/
def Crowded (host : Host (Vector α)) (needed : Nat) (fault : Fault) (after : Host (Vector α)) : Prop :=
  after.container = host.container ∧ NoRoom host needed fault

/-- There is no room for so many elements, and the vector is empty. -/
def Unassigned (host : Host (Vector α)) (needed : Nat) (fault : Fault) (after : Host (Vector α)) : Prop :=
  after.container = ⟨host.container.engine, #[]⟩ ∧ NoRoom host needed fault

/-- A buffer of so many slots is denied, and nothing changed. -/
def Unmoved (host : Host (Vector α)) (capacity : Nat) (fault : Fault) (after : Host (Vector α)) : Prop :=
  after.container = host.container ∧ Storage.Denied host capacity fault

end Reasons

section Rules
variable {op : Op (Vector α) β} {host : Host (Vector α)} {items left : List α} {expected : Except Fault (List α × β)}
  {ungranted : Fault → Host (Vector α) → Prop}

theorem Holds.toArray {v : Vector α} (holds : Holds v items) : v.items = items.toArray := by
  rw [← holds.items_eq]

theorem Holds.length (holds : Holds host.container items) : host.container.size = items.length := by
  rw [← holds.items_eq, Array.length_toList]
  rfl

theorem Holds.size_items (holds : Holds host.container items) : host.container.items.size = items.length :=
  holds.length

theorem Holds.getElem? (holds : Holds host.container items) (position : Nat) :
    host.container.items[position]? = items[position]? := by
  rw [← holds.items_eq, Array.getElem?_toList]

theorem Holds.room (holds : Holds host.container items) : items.length ≤ host.container.capacity :=
  holds.length ▸ holds.fits

theorem Meets.imp {ungranted' : Fault → Host (Vector α) → Prop} (meets : Meets op host expected ungranted)
    (implies : ∀ fault after, ungranted fault after → ungranted' fault after) :
    Meets op host expected ungranted' := by
  apply meets.mono
  · intro answer after met
    exact met
  · rintro fault after (broken | ⟨granted, reason⟩)
    · exact .inl broken
    · exact .inr ⟨granted, implies fault after reason⟩

theorem Meets.settles (meets : Meets op host expected ungranted) : Settles host expected ungranted (op.step host) := by
  apply (leads_iff_step op fun outcome after => Settles host expected ungranted ⟨outcome, after⟩).mp
  apply meets.mono
  · rintro answer after ⟨left, edits, holds⟩
    exact .answered edits holds
  · rintro fault after (⟨breaks, rfl⟩ | ⟨⟨result, edits⟩, reason⟩)
    · exact .broken breaks
    · exact .ungranted edits reason

/-- Where growth that is not granted changes nothing, the vector holds what is left of the list. -/
theorem Settles.holds {step : Step (Vector α) β} (settles : Settles host expected ungranted step)
    (holds : Holds host.container items)
    (kept : ∀ fault after, ungranted fault after → after.container = host.container) :
    Holds step.after.container (leaves items expected step.outcome) := by
  cases settles with
  | broken breaks =>
    simp only [leaves, breaks]
    exact holds
  | answered edits holds' =>
    simp only [leaves, edits]
    exact holds'
  | ungranted edits reason =>
    simp only [leaves, edits, kept _ _ reason]
    exact holds

/-- An operation that answers from the list as it is. -/
theorem meets_answer {answer : β} (holds : Holds host.container items) :
    Meets (pure answer) host (.ok (items, answer)) ungranted :=
  ⟨items, rfl, holds⟩

/-- An operation that fails before it has changed anything. -/
theorem meets_error {fault : Fault} (fails : op host = .error fault host) :
    Meets op host (.error fault) ungranted := by
  simp only [Meets, Leads, fails]
  exact .inl ⟨trivial, trivial⟩

theorem meets_current {next : Vector α → Op (Vector α) β}
    (rest : Meets (next host.container) host expected ungranted) :
    Meets (Op.current >>= next) host expected ungranted := rest

/-- A condition is checked on both sides. -/
theorem meets_require {next : Op (Vector α) β} {condition : Prop} [Decidable condition] {cause : Panic}
    (rest : condition → Meets next host expected ungranted) :
    Meets (do Op.require condition cause; next) host
      (if condition then expected else .error (.panicked cause)) ungranted := by
  by_cases held : condition
  · rw [if_pos held, Meets, leads_bind, leads_require, if_pos held]
    exact rest held
  · rw [if_neg held, Meets, leads_bind, leads_require, if_neg held]
    exact .inl ⟨rfl, rfl⟩

theorem meets_map (f : β → γ) (meets : Meets op host expected ungranted) :
    Meets (f <$> op) host (expected.map fun (left, answer) => (left, f answer)) ungranted := by
  rw [Meets, leads_map]
  apply meets.mono
  · rintro answer after ⟨left, rfl, holds⟩
    exact ⟨left, rfl, holds⟩
  · rintro fault after (⟨rfl, kept⟩ | ⟨⟨result, rfl⟩, reason⟩)
    · exact .inl ⟨rfl, kept⟩
    · exact .inr ⟨⟨_, rfl⟩, reason⟩

theorem meets_return (reply : γ) (meets : Meets op host expected ungranted) :
    Meets (do let _ ← op; return reply) host (expected.map fun (left, _) => (left, reply)) ungranted := by
  rw [Meets, leads_bind]
  exact (leads_map _ _).mp (meets_map (fun _ => reply) meets)

theorem meets_orAbort (meets : Meets op host expected ungranted)
    (panics : ∀ fault, expected = .error fault → fault.abort = fault) :
    Meets (Op.orAbort op) host expected (Aborting ungranted) := by
  rw [Meets, leads_orAbort]
  apply meets.mono
  · intro answer after met
    exact met
  · rintro fault after (⟨isFault, kept⟩ | ⟨granted, reason⟩)
    · exact .inl ⟨by rw [panics fault isFault, isFault], kept⟩
    · exact .inr ⟨granted, fault, rfl, reason⟩

/-- The elements are rewritten within the room there is. -/
theorem rewrite_sure {change : Array α → Array α} (list : (change host.container.items).toList = left)
    (room : left.length ≤ host.container.capacity) :
    Sure (Storage.rewrite change) host fun _ after => Holds after.container left :=
  ⟨list, by rwa [← list, Array.length_toList] at room⟩

theorem meets_change {change : Array α → Array α} (list : (change host.container.items).toList = left)
    (room : left.length ≤ host.container.capacity) :
    Meets (Storage.rewrite change) host (.ok (left, ())) ungranted :=
  ⟨left, rfl, rewrite_sure list room⟩

theorem meets_rewrite {change : Array α → Array α} {answer : β}
    (list : (change host.container.items).toList = left) (room : left.length ≤ host.container.capacity) :
    Meets (do Storage.rewrite change; return answer) host (.ok (left, answer)) ungranted := by
  apply (rewrite_sure list room).andThen
  intro _ after holds
  exact ⟨left, rfl, holds⟩

end Rules

section Edits
variable {host : Host (Vector α)} {items : List α} {ungranted : Fault → Host (Vector α) → Prop}

theorem remove_meets (holds : Holds host.container items) (position : Nat) :
    Meets (remove position) host (Reference.remove items position) ungranted := by
  unfold remove Reference.remove
  apply meets_current
  rw [holds.getElem?, holds.length]
  cases found : items[position]? with
  | none => exact meets_error rfl
  | some x =>
    have live : position < items.length := (List.getElem?_eq_some_iff.mp found).1
    have inside : position + 1 ≤ host.container.items.size := by rwa [holds.size_items]
    have room := holds.room
    apply meets_rewrite
    · rw [Slots.toList_erase (Nat.le_succ _) inside, holds.items_eq, List.eraseIdx_eq_take_drop_succ]
    · rw [List.length_eraseIdx]
      split <;> omega

theorem erase_meets (holds : Holds host.container items) (position : Nat) :
    Meets (erase position) host ((Reference.remove items position).map fun (left, _) => (left, position))
      ungranted :=
  meets_return position (remove_meets holds position)

theorem eraseRange_meets (holds : Holds host.container items) (start stop : Nat) :
    Meets (eraseRange start stop) host (Reference.eraseRange items start stop) ungranted := by
  unfold eraseRange Reference.eraseRange
  apply meets_current
  rw [holds.length]
  by_cases empty : stop ≤ start
  · rw [if_pos empty, if_pos empty]
    exact meets_answer holds
  · rw [if_neg empty, if_neg empty]
    apply meets_require
    intro within
    have inside : stop ≤ host.container.items.size := by rwa [holds.size_items]
    have room := holds.room
    apply meets_rewrite
    · rw [Slots.toList_erase (by omega) inside, holds.items_eq]
    · simp only [List.length_append, List.length_take, List.length_drop]
      omega

theorem swapErase_meets (holds : Holds host.container items) (position : Nat) :
    Meets (swapErase position) host (Reference.swapErase items position) ungranted := by
  unfold swapErase Reference.swapErase
  apply meets_current
  rw [holds.getElem?, holds.length]
  cases found : items[position]? with
  | none => exact meets_error rfl
  | some x =>
    have live : position < items.length := (List.getElem?_eq_some_iff.mp found).1
    have inside : position < host.container.items.size := by rwa [holds.size_items]
    have room := holds.room
    cases isLast : items.getLast? with
    | none =>
      rw [List.getLast?_eq_none_iff.mp isLast] at live
      exact absurd live (Nat.not_lt_zero _)
    | some last =>
      have back : host.container.items.back? = some last := by
        rw [← Array.getLast?_toList, holds.items_eq, isLast]
      apply meets_rewrite
      · rw [Slots.toList_swapErase inside back, holds.items_eq]
      · rw [List.length_set, List.length_dropLast]
        omega

theorem pop_meets (holds : Holds host.container items) :
    Meets pop host (.ok (items.dropLast, items.getLast?)) ungranted := by
  unfold pop
  apply meets_current
  rw [← Array.getLast?_toList, holds.items_eq]
  have room := holds.room
  apply meets_rewrite
  · rw [Array.toList_pop, holds.items_eq]
  · rw [List.length_dropLast]
    omega

theorem truncate_meets (holds : Holds host.container items) (size : Nat) :
    Meets (truncate size) host (.ok (items.take size, ())) ungranted := by
  have room := holds.room
  apply meets_change
  · rw [Array.toList_extract, List.extract_eq_take_drop, holds.items_eq, List.drop_zero, Nat.sub_zero,
      holds.size_items, ← List.take_take, List.take_length]
  · rw [List.length_take]
    omega

theorem modifyEach_meets (holds : Holds host.container items) (change : α → α) :
    Meets (modifyEach change) host (.ok (items.map change, ())) ungranted := by
  apply meets_change
  · rw [Array.toList_map, holds.items_eq]
  · rw [List.length_map]
    exact holds.room

theorem modify_meets (holds : Holds host.container items) (position : Nat) (change : α → α) :
    Meets (Storage.rewrite (·.modify position change)) host (.ok (items.modify position change, ())) ungranted := by
  apply meets_change
  · rw [Array.toList_modify, holds.items_eq]
  · rw [List.length_modify]
    exact holds.room

theorem item_meets (holds : Holds host.container items) (position : Nat) :
    Meets (item position) host (Reference.read items position .outOfRange) ungranted := by
  unfold item Reference.read
  apply meets_current
  rw [holds.getElem?]
  cases found : items[position]? with
  | none => exact meets_error rfl
  | some x => exact meets_answer holds

theorem get_meets (holds : Holds host.container items) (position : Nat) :
    Meets (get position) host (Reference.read items position (.panicked (.index position items.length)))
      ungranted := by
  unfold get Reference.read
  apply meets_current
  rw [holds.getElem?, holds.length]
  cases found : items[position]? with
  | none => exact meets_error rfl
  | some x => exact meets_answer holds

theorem overwrite_meets (holds : Holds host.container items) (position : Nat) (x : α) :
    Meets (Storage.rewrite (·.setIfInBounds position x)) host (.ok (items.set position x, ())) ungranted := by
  apply meets_change
  · rw [Array.toList_setIfInBounds, holds.items_eq]
  · rw [List.length_set]
    exact holds.room

theorem setItem_meets (holds : Holds host.container items) (position : Nat) (x : α) :
    Meets (setItem position x) host (Reference.write items position x .outOfRange) ungranted := by
  unfold setItem Reference.write
  apply meets_current
  rw [holds.length]
  split
  · exact overwrite_meets holds position x
  · exact meets_error rfl

theorem set_meets (holds : Holds host.container items) (position : Nat) (x : α) :
    Meets (set position x) host (Reference.write items position x (.panicked (.index position items.length)))
      ungranted := by
  unfold set Reference.write
  apply meets_current
  rw [holds.length]
  apply meets_require
  intro _
  exact overwrite_meets holds position x

/-- An end of a list is there exactly if the list is not empty. -/
theorem read_end {position : Nat} {fault other : Fault} (inside : items.length ≠ 0 → position < items.length) :
    (if items.length ≠ 0 then Reference.read items position other else .error fault) =
      Reference.read items position fault := by
  unfold Reference.read
  by_cases nonempty : items.length ≠ 0
  · rw [if_pos nonempty, List.getElem?_eq_getElem (inside nonempty)]
  · rw [if_neg nonempty, List.getElem?_eq_none (by omega)]

theorem write_end {position : Nat} {x : α} {fault other : Fault}
    (inside : items.length ≠ 0 → position < items.length) :
    (if items.length ≠ 0 then Reference.write items position x other else .error fault) =
      Reference.write items position x fault := by
  unfold Reference.write
  by_cases nonempty : items.length ≠ 0
  · rw [if_pos nonempty, if_pos (inside nonempty), if_pos (inside nonempty)]
  · rw [if_neg nonempty, if_neg (by omega)]

theorem front_meets (holds : Holds host.container items) :
    Meets front host (Reference.read items 0 (.panicked (.emptyVector .front))) ungranted := by
  unfold front
  apply meets_current
  rw [holds.length, ← read_end fun nonempty => Nat.pos_of_ne_zero nonempty]
  apply meets_require
  intro _
  exact get_meets holds 0

theorem back_meets (holds : Holds host.container items) :
    Meets back host (Reference.read items (items.length - 1) (.panicked (.emptyVector .back))) ungranted := by
  unfold back
  apply meets_current
  rw [holds.length, ← read_end fun nonempty => Nat.sub_one_lt nonempty]
  apply meets_require
  intro _
  exact get_meets holds _

theorem setFront_meets (holds : Holds host.container items) (x : α) :
    Meets (setFront x) host (Reference.write items 0 x (.panicked (.emptyVector .frontWrite))) ungranted := by
  unfold setFront
  apply meets_current
  rw [holds.length, ← write_end fun nonempty => Nat.pos_of_ne_zero nonempty]
  apply meets_require
  intro _
  exact set_meets holds 0 x

theorem setBack_meets (holds : Holds host.container items) (x : α) :
    Meets (setBack x) host (Reference.write items (items.length - 1) x (.panicked (.emptyVector .backWrite)))
      ungranted := by
  unfold setBack
  apply meets_current
  rw [holds.length, ← write_end fun nonempty => Nat.sub_one_lt nonempty]
  apply meets_require
  intro _
  exact set_meets holds _ x

theorem resize_of_le {size : Nat} {x : α} (shorter : size ≤ items.length) :
    Reference.resize items size x = items.take size := by
  rw [Reference.resize, Nat.sub_eq_zero_of_le shorter, List.replicate_zero, List.append_nil]

theorem resize_of_ge {size : Nat} {x : α} (longer : items.length ≤ size) :
    Reference.resize items size x = items ++ List.replicate (size - items.length) x := by
  rw [Reference.resize, List.take_of_length_le longer]

/-- Dropping every element leaves the buffer and the allocators as they are. -/
theorem clear_leaves (host : Host (Vector α)) :
    Sure clear host fun _ after => after = ⟨⟨host.container.engine, #[]⟩, host.pool⟩ := by
  unfold clear truncate Storage.rewrite
  rw [Sure, leads_update]
  simp

/-- With room for them, copies are put in before the element at a place. -/
theorem putIn_sure {position n : Nat} {x : α} (same : host.container.items.toList = items)
    (within : position ≤ items.length) (room : items.length + n ≤ host.container.capacity) :
    Sure (Storage.rewrite fun slots => Slots.insert slots position n x) host fun _ after =>
      Holds after.container (items.take position ++ (List.replicate n x ++ items.drop position)) := by
  have inside : position ≤ host.container.items.size := by rwa [← Array.length_toList, same]
  apply rewrite_sure
  · rw [Slots.toList_insert inside, same]
  · simp only [List.length_append, List.length_take, List.length_replicate, List.length_drop]
    omega

theorem find_meets [BEq α] (holds : Holds host.container items) (x : α) :
    Meets (find x) host (.ok (items, items.findIdx? (· == x))) ungranted := by
  unfold find
  apply meets_current
  rw [holds.toArray, List.findIdx?_toArray]
  exact meets_answer holds

theorem findFrom_meets [BEq α] (holds : Holds host.container items) (x : α) (start : Nat) :
    Meets (findFrom x start) host
      (if start ≤ items.length then .ok (items, ((items.drop start).findIdx? (· == x)).map (· + start))
       else .error (.panicked (.startIndex start items.length))) ungranted := by
  unfold findFrom
  apply meets_current
  rw [holds.length]
  apply meets_require
  intro _
  rw [holds.toArray, List.extract_toArray, List.findIdx?_toArray, List.extract_eq_take_drop, ← List.length_drop,
    List.take_length]
  exact meets_answer holds

end Edits

section Growing
variable [Stored α] {host : Host (Vector α)} {items : List α}

theorem tryPush_meets (holds : Holds host.container items) (x : α) :
    Meets (tryPush x) host (.ok (items ++ [x], ()))
      (Unpushed host) := by
  apply (tryPush_leads host x).mono
  · rintro answer after ⟨pushed, fits⟩
    refine ⟨_, rfl, ?_, fits holds.fits⟩
    rw [pushed, Array.toList_push, holds.items_eq]
  · rintro fault after stuck
    exact .inr ⟨⟨_, rfl⟩, stuck⟩

theorem push_meets (holds : Holds host.container items) (x : α) :
    Meets (push x) host (.ok (items ++ [x], ()))
      (Aborting (Unpushed host)) := by
  apply meets_orAbort (tryPush_meets holds x)
  intro fault impossible
  cases impossible

theorem tryInsert_meets (holds : Holds host.container items) (position : Nat) (x : α) :
    Meets (tryInsert position x) host (Reference.insert items position x) (Unpushed host) := by
  unfold tryInsert
  apply meets_current
  rw [holds.length]
  apply meets_require
  intro within
  rw [Meets, leads_bind]
  apply (growIfFull_leads host).mono
  · rintro _ after ⟨same, room⟩
    have more := room holds.fits
    rw [holds.length] at more
    apply (putIn_sure (same ▸ holds.items_eq) within more).andThen
    intro _ last holds'
    exact ⟨_, rfl, holds'⟩
  · rintro fault after stuck
    exact .inr ⟨⟨_, rfl⟩, stuck⟩

theorem insert_meets (holds : Holds host.container items) (position : Nat) (x : α) :
    Meets (insert position x) host (Reference.insert items position x) (Aborting (Unpushed host)) := by
  apply meets_orAbort (tryInsert_meets holds position x)
  intro fault fails
  unfold Reference.insert at fails
  split at fails
  · cases fails
  · cases fails
    rfl

theorem tryInsertMany_meets (holds : Holds host.container items) (position n : Nat) (x : α) :
    Meets (tryInsertMany position n x) host (Reference.insertMany items position n x)
      (Crowded host (host.container.size + n)) := by
  have finish : ∀ after : Host (Vector α), position ≤ items.length →
      after.container.items = host.container.items → items.length + n ≤ after.container.capacity →
      Sure (do Storage.rewrite fun slots => Slots.insert slots position n x
               return position : Op (Vector α) Nat) after
        fun answer last => answer = position ∧
          Holds last.container (items.take position ++ (List.replicate n x ++ items.drop position)) := by
    intro after within same room
    apply (putIn_sure (same ▸ holds.items_eq) within room).andThen
    intro _ last holds'
    exact ⟨rfl, holds'⟩
  unfold tryInsertMany
  apply meets_current
  rw [holds.length]
  apply meets_require
  intro within
  by_cases none : n = 0
  · subst none
    simp only [↓reduceIte, List.replicate_zero, List.nil_append, List.take_append_drop, true_or]
    exact meets_answer holds
  · rw [if_neg none]
    simp only [none, false_or]
    apply meets_require
    intro counted
    split
    · rename_i lacking
      rw [Meets, leads_bind]
      apply (makeRoom_leads (by rw [holds.length]; omega) lacking).mono
      · rintro _ after ⟨same, room⟩
        apply (finish after within same room).weaken
        rintro answer last ⟨rfl, holds'⟩
        exact ⟨_, rfl, holds'⟩
      · rintro fault after denied
        exact .inr ⟨⟨_, rfl⟩, denied⟩
    · rename_i room
      apply (finish host within rfl (Nat.not_lt.mp room)).weaken
      rintro answer last ⟨rfl, holds'⟩
      exact ⟨_, rfl, holds'⟩

theorem resize_meets [Inhabited α] (holds : Holds host.container items) (size : Nat) :
    Meets (resize size) host (.ok (Reference.resize items size default, ()))
      (Aborting (Crowded host size)) := by
  have finish : ∀ after : Host (Vector α), items.length ≤ size →
      after.container.items = host.container.items → size ≤ after.container.capacity →
      Sure (Storage.rewrite fun slots => slots ++ Array.replicate (size - slots.size) default) after
        fun _ last => Holds last.container (Reference.resize items size default) := by
    intro after longer same room
    apply rewrite_sure
    · rw [Array.toList_append, Array.toList_replicate, same, holds.items_eq, holds.size_items, resize_of_ge longer]
    · rw [resize_of_ge longer, List.length_append, List.length_replicate]
      omega
  unfold resize
  apply meets_current
  rw [holds.length]
  by_cases shorter : size ≤ items.length
  · rw [if_pos shorter, resize_of_le shorter]
    exact truncate_meets holds size
  · rw [if_neg shorter]
    have longer : items.length ≤ size := by omega
    split
    · rename_i lacking
      rw [Meets, leads_bind, leads_orAbort]
      apply (makeRoom_leads (by rwa [holds.length]) lacking).mono
      · rintro _ after ⟨same, room⟩
        apply (finish after longer same room).weaken
        intro answer last holds'
        exact ⟨_, rfl, holds'⟩
      · rintro fault after denied
        exact .inr ⟨⟨_, rfl⟩, fault, rfl, denied⟩
    · rename_i room
      apply (finish host longer rfl (Nat.not_lt.mp room)).weaken
      intro answer last holds'
      exact ⟨_, rfl, holds'⟩

theorem insertMany_meets (holds : Holds host.container items) (position n : Nat) (x : α) :
    Meets (insertMany position n x) host (Reference.insertMany items position n x)
      (Aborting (Crowded host (host.container.size + n))) := by
  apply meets_orAbort (tryInsertMany_meets holds position n x)
  intro fault fails
  unfold Reference.insertMany at fails
  split at fails
  · split at fails
    · cases fails
    · cases fails
      rfl
  · cases fails
    rfl

theorem resizeWith_meets (holds : Holds host.container items) (size : Nat) (x : α) :
    Meets (resizeWith size x) host (Reference.resizeWith items size x)
      (Aborting (Crowded host size)) := by
  unfold resizeWith Reference.resizeWith
  apply meets_current
  rw [holds.length]
  by_cases longer : items.length < size
  · rw [if_pos longer, resize_of_ge (Nat.le_of_lt longer)]
    have counts : items.length + (size - items.length) = size := by omega
    have grows := meets_map (fun _ => ()) (insertMany_meets holds items.length (size - items.length) x)
    rw [holds.length, counts] at grows
    have expected : (Reference.insertMany items items.length (size - items.length) x).map
        (fun (left, _) => (left, ())) =
        if size ≤ max items.length maxCount then .ok (items ++ List.replicate (size - items.length) x, ())
        else .error (.panicked .capacityOverflow) := by
      unfold Reference.insertMany
      rw [if_pos (Nat.le_refl _), counts, List.take_length, List.drop_length, List.append_nil]
      by_cases counted : size ≤ max items.length maxCount
      · rw [if_pos (by omega), if_pos counted]
        rfl
      · rw [if_neg (by omega), if_neg counted]
        rfl
    rw [← expected]
    exact grows
  · rw [if_neg longer, if_pos (by omega), resize_of_le (Nat.not_lt.mp longer)]
    exact truncate_meets holds size

theorem tryReserve_meets (holds : Holds host.container items) (capacity : Nat) :
    Meets (tryReserve capacity) host (.ok (items, ())) fun fault after =>
      host.container.capacity < capacity ∧ Unmoved host capacity fault after := by
  have room := holds.room
  unfold tryReserve
  apply meets_current
  split
  · rename_i lacking
    apply (Storage.reallocate_leads host capacity).mono
    · rintro answer after ⟨same, larger⟩
      rw [Nat.min_eq_left (by rw [holds.length]; omega)] at same
      refine ⟨items, rfl, ?_, ?_⟩
      · rw [same, Storage.size, Array.extract_size, holds.items_eq]
      · rw [Storage.Fits, larger, Storage.size, same, Storage.size, Array.extract_size, holds.size_items]
        omega
    · rintro fault after ⟨kept, denied⟩
      exact .inr ⟨⟨_, rfl⟩, lacking, kept, denied⟩
  · exact meets_answer holds

theorem setAllocator_meets {ungranted : Fault → Host (Vector α) → Prop} (holds : Holds host.container items)
    (id : AllocatorId) : Meets (Storage.setAllocator id) host (.ok (items, ())) ungranted := by
  refine ⟨items, rfl, ?_⟩
  obtain ⟨itemsEq, fits⟩ := holds
  rw [Storage.Fits, Storage.capacity] at fits
  dsimp only
  split
  · rename_i heap
    rw [heap] at fits
    split
    · exact ⟨itemsEq, fits⟩
    · exact ⟨itemsEq, by rwa [Storage.Fits, Storage.capacity, heap]⟩
  · exact ⟨itemsEq, fits⟩

theorem reallocate_meets (holds : Holds host.container items) (capacity : Nat) :
    Meets (Storage.reallocate capacity) host (.ok (items.take capacity, ())) (Unmoved host capacity) := by
  apply (Storage.reallocate_leads host capacity).mono
  · rintro answer after ⟨same, capacity_eq⟩
    have list : after.container.items.toList = items.take capacity := by
      rw [same, Array.toList_extract, List.extract_eq_take_drop, holds.items_eq, List.drop_zero, Nat.sub_zero,
        holds.length, Nat.min_comm, ← List.take_take, List.take_length]
    refine ⟨_, rfl, list, ?_⟩
    rw [Storage.Fits, capacity_eq, Storage.size, ← Array.length_toList, list, List.length_take]
    exact Nat.min_le_left ..
  · rintro fault after denied
    exact .inr ⟨⟨_, rfl⟩, denied⟩

theorem reserve_meets (holds : Holds host.container items) (capacity : Nat) :
    Meets (reserve capacity) host (.ok (items, ())) (Aborting fun fault after =>
      host.container.capacity < capacity ∧ Unmoved host capacity fault after) := by
  apply meets_orAbort (tryReserve_meets holds capacity)
  intro fault impossible
  cases impossible

theorem setCapacity_meets (holds : Holds host.container items) (capacity : Nat) :
    Meets (setCapacity capacity) host (.ok (items.take capacity, ())) (Aborting (Unmoved host capacity)) := by
  apply meets_orAbort (reallocate_meets holds capacity)
  intro fault impossible
  cases impossible

theorem reset_meets {ungranted : Fault → Host (Vector α) → Prop} (host : Host (Vector α)) :
    Meets Storage.reset host (.ok ([], ())) ungranted :=
  ⟨[], rfl, rfl, Nat.zero_le _⟩

theorem tryAssign_meets (host : Host (Vector α)) (given : List α) :
    Meets (tryAssign given) host (.ok (given, ())) (Unassigned host given.length) := by
  have finish : ∀ after : Host (Vector α), after.container.items = #[] → given.length ≤ after.container.capacity →
      Sure (Storage.rewrite (· ++ given)) after fun _ last => Holds last.container given := by
    intro after empty room
    apply rewrite_sure
    · rw [empty]
      simp
    · exact room
  unfold tryAssign
  apply (clear_leaves host).andThen
  rintro _ _ rfl
  apply current_then
  split
  · rename_i lacking
    have enough := host.container.le_capacityFor given.length
    rw [leads_bind]
    apply (Storage.reallocateDiscarding_leads _ (Nat.lt_of_lt_of_le lacking enough)).mono
    · rintro _ after ⟨empty, capacity⟩
      apply (finish after empty (capacity ▸ enough)).weaken
      intro answer last holds'
      exact ⟨_, rfl, holds'⟩
    · rintro fault after ⟨kept, denied⟩
      exact .inr ⟨⟨_, rfl⟩, kept, lacking, denied.of_engine rfl rfl⟩
  · rename_i room
    apply (finish _ rfl (Nat.not_lt.mp room)).weaken
    intro answer last holds'
    exact ⟨_, rfl, holds'⟩

theorem assign_meets (host : Host (Vector α)) (given : List α) :
    Meets (assign given) host (.ok (given, ())) (Aborting (Unassigned host given.length)) := by
  apply meets_orAbort (tryAssign_meets host given)
  intro fault impossible
  cases impossible

end Growing

end Containers.Vector
