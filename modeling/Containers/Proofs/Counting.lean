import Containers.Proofs.Growth
import Containers.Vector.Command

/-! The numbers that the operations of a vector compute. The operations are carried out once
more, with every sum, difference and place of a slot that is computed without a check, and
a number that does not fit into a machine word, or a slot that is not in the buffer, ends
everything. From every vector whose capacity is such a number this never happens. -/
namespace Containers

/-- A computation that ends with a fault, or with none where a number or a slot is out of range. -/
abbrev Counting (σ : Type) := EStateM (Option Fault) (Host σ)

namespace Counting

section Numbers
variable {σ α β : Type}

/-- An operation of whose numbers none is computed without a check. -/
def plainly (op : Op σ β) : Counting σ β :=
  fun host => match op host with
    | .ok answer after => .ok answer after
    | .error fault after => .error (some fault) after

/-- Treats a refusal as the end of the run. -/
def orAbort (counted : Counting σ β) : Counting σ β :=
  fun host => match counted host with
    | .ok answer after => .ok answer after
    | .error fault after => .error (fault.map Fault.abort) after

/-- A number that fits into a machine word. -/
def word (n : Int) : Counting σ Nat :=
  if 0 ≤ n ∧ n ≤ maxCount then pure n.toNat else throw none

/-- A sum that is computed without a check. -/
def sum (a b : Nat) : Counting σ Nat :=
  word (a + b)

/-- A difference that is computed without a check. -/
def difference (a b : Nat) : Counting σ Nat :=
  word (a - b)

/-- The place of a slot, or the end of the buffer. Its offset in bytes is a product that is
computed without a check; only the bytes of the whole buffer were checked, when it was obtained. -/
def slot [Stored α] (position : Nat) : Counting (Storage α) Unit := do
  let storage ← plainly Op.current
  if position ≤ storage.capacity ∧
      (storage.capacity * elementSize α ≤ maxBytes → position * elementSize α ≤ maxCount) then
    pure ()
  else throw none

/-- So many turns of a loop, which counts up from `start`. -/
def turns (start count : Nat) (turn : Nat → Counting σ Unit) : Counting σ Unit :=
  (List.range' start count).forM turn

end Numbers

section Operations
variable {α : Type} [Stored α]

/-- Moves the tail behind `position` up by `n` slots. -/
def moveUp (position size n : Nat) : Counting (Storage α) Unit := do
  slot position
  slot (← sum position n)
  let _ ← difference size position

/-- Moves the tail behind `start` down by `n` slots. -/
def moveDown (start size n : Nat) : Counting (Storage α) Unit := do
  slot start
  slot (← difference start n)
  let _ ← difference size start

/-- Drops every element from `size` on. -/
def truncate (size : Nat) : Counting (Vector α) Unit := do
  let v ← plainly Op.current
  if size < v.size then
    slot size
    let _ ← difference v.size size
  plainly (Vector.truncate size)

/-- Drops the elements from `start` up to `stop`. -/
def eraseRange (start stop : Nat) : Counting (Vector α) Nat := do
  let v ← plainly Op.current
  if stop ≤ start then
    return v.size
  plainly (Op.require (stop ≤ v.size) (.eraseRangeEnd stop v.size))
  let n ← difference stop start
  slot start
  moveDown stop v.size n
  let _ ← difference v.size n
  plainly (Storage.rewrite fun slots => Slots.erase slots start stop)
  return start

/-- Constructs the slots from `start` on, the length following one by one. -/
def construct (start count : Nat) : Counting (Storage α) Unit :=
  turns start count fun i => do
    slot i
    let _ ← sum i 1

/-- Moves to a buffer of `count` slots. -/
def reallocate (count : Nat) : Counting (Storage α) Unit := do
  let storage ← plainly Op.current
  let kept := min storage.size count
  slot kept
  let _ ← difference storage.size kept
  plainly (Storage.reallocate count)

/-- Doubles the capacity. -/
def grow : Counting (Vector α) Unit := do
  let v ← plainly Op.current
  if v.capacity = 0 then
    reallocate Vector.initialCapacity
  else do
    plainly (Op.require (2 * v.capacity ≤ maxCount) .capacityOverflow)
    reallocate (2 * v.capacity)

/-- Grows if every slot is constructed. -/
def growIfFull : Counting (Vector α) Unit := do
  let v ← plainly Op.current
  if v.size = v.capacity then grow

/-- Appends an element. -/
def tryPush (x : α) : Counting (Vector α) Unit := do
  let v ← plainly Op.current
  growIfFull
  slot v.size
  let _ ← sum v.size 1
  plainly (Storage.rewrite (·.push x))

/-- Puts an element before the one at `position`. -/
def tryInsert (position : Nat) (x : α) : Counting (Vector α) Nat := do
  let v ← plainly Op.current
  plainly (Op.require (position ≤ v.size) (.insertIndex position v.size))
  growIfFull
  moveUp position v.size 1
  slot position
  let _ ← sum v.size 1
  plainly (Storage.rewrite fun slots => Slots.insert slots position 1 x)
  return position

/-- Fills the gap in front of `position` that was made in a vector of `size` elements. -/
def fillGap (position size n : Nat) (x : α) : Counting (Vector α) Nat := do
  moveUp position size n
  turns 0 (← difference n 1) fun i => do
    slot (← sum position i)
  slot (← difference (← sum position n) 1)
  let _ ← sum size n
  plainly (Storage.rewrite fun slots => Slots.insert slots position n x)
  return position

/-- Puts `n` copies of an element before the one at `position`. -/
def tryInsertMany (position n : Nat) (x : α) : Counting (Vector α) Nat := do
  let v ← plainly Op.current
  plainly (Op.require (position ≤ v.size) (.insertIndex position v.size))
  if n = 0 then
    return position
  plainly (Op.require (v.size + n ≤ maxCount) .capacityOverflow)
  if v.capacity < v.size + n then
    reallocate (v.capacityFor (v.size + n))
  fillGap position v.size n x

/-- Grows with default values or shrinks to `size` elements. -/
def resize [Inhabited α] (size : Nat) : Counting (Vector α) Unit := do
  let v ← plainly Op.current
  if size ≤ v.size then
    truncate size
  else do
    if v.capacity < size then
      orAbort (reallocate (v.capacityFor size))
    construct v.size (size - v.size)
    plainly (Storage.rewrite fun slots => slots ++ Array.replicate (size - slots.size) default)

/-- Grows with copies of a value or shrinks to `size` elements. -/
def resizeWith (size : Nat) (x : α) : Counting (Vector α) Unit := do
  let v ← plainly Op.current
  if v.size < size then
    let _ ← orAbort (tryInsertMany v.size (← difference size v.size) x)
  else
    truncate size

/-- Makes room for `capacity` elements in all. -/
def tryReserve (capacity : Nat) : Counting (Vector α) Unit := do
  let v ← plainly Op.current
  if v.capacity < capacity then
    reallocate capacity

/-- Holds a copy of `items` and nothing else. -/
def tryAssign (items : List α) : Counting (Vector α) Unit := do
  truncate 0
  let v ← plainly Op.current
  if v.capacity < items.length then
    plainly (Storage.reallocateDiscarding (v.capacityFor items.length))
  construct 0 items.length
  plainly (Storage.rewrite (· ++ items))

/-- Makes room at once for so many more elements, as far as they can be counted. -/
def announce (promised : Nat) : Counting (Vector α) Unit := do
  let v ← plainly Op.current
  let wanted := min (v.size + promised) maxCount
  if v.capacity < wanted then
    orAbort (reallocate (v.capacityFor wanted))

/-- Appends elements of which at least `promised` were announced. -/
def extendHinted (items : List α) (promised : Nat) : Counting (Vector α) Unit := do
  announce promised
  items.forM fun x => orAbort (tryPush x)

end Operations

end Counting

/-- From this host no number leaves its range, and the counted computation does what the operation does. -/
def Exact {σ β : Type} (counted : Counting σ β) (op : Op σ β) (host : Host σ) : Prop :=
  counted host = Counting.plainly op host

namespace Counting

section Rules
variable {σ β γ : Type} {host : Host σ} {counted : Counting σ β} {op : Op σ β}

theorem exact_plainly (op : Op σ β) : Exact (plainly op) op host := rfl

theorem exact_pure (answer : β) : Exact (pure answer) (pure answer) host := rfl

/-- What the container shows goes into the numbers only. -/
theorem exact_current {next : σ → Counting σ β} (rest : Exact (next host.container) op host) :
    Exact (plainly Op.current >>= next) op host := rest

/-- What the container shows goes into the numbers and into the operation. -/
theorem exact_reading {next : σ → Counting σ β} {next' : σ → Op σ β}
    (rest : Exact (next host.container) (next' host.container) host) :
    Exact (plainly Op.current >>= next) (Op.current >>= next') host := rest

theorem exact_bind {next : β → Counting σ γ} {next' : β → Op σ γ} (first : Exact counted op host)
    (rest : Leads op host (fun answer after => Exact (next answer) (next' answer) after) fun _ _ => True) :
    Exact (counted >>= next) (op >>= next') host := by
  simp only [Leads] at rest
  simp only [Exact, plainly] at first ⊢
  simp only [bind, EStateM.bind, first]
  cases ran : op host with
  | ok answer after =>
    rw [ran] at rest
    exact rest
  | error fault after => rfl

/-- Numbers come before the operation that they belong to. -/
theorem exact_then {next : β → Counting σ γ} {op : Op σ γ} {answer : β} (number : Exact counted (pure answer) host)
    (rest : Exact (next answer) op host) : Exact (counted >>= next) op host := by
  simp only [Exact, plainly, pure, EStateM.pure] at number
  simp only [Exact, bind, EStateM.bind, number]
  exact rest

/-- The answer does not depend on what came before. -/
theorem exact_reply (exact : Exact counted op host) (reply : γ) :
    Exact (do let _ ← counted; return reply) (do let _ ← op; return reply) host :=
  exact_bind exact ((leads_trivial op).mono (fun _ _ _ => exact_pure reply) fun _ _ => id)

theorem exact_map (f : β → γ) (exact : Exact counted op host) : Exact (f <$> counted) (f <$> op) host := by
  simp only [Exact, plainly] at exact ⊢
  simp only [Functor.map, EStateM.map, exact]
  cases op host <;> rfl

theorem exact_ite {condition : Prop} [Decidable condition] {other : Counting σ β} {op' : Op σ β}
    (holds : condition → Exact counted op host) (fails : ¬ condition → Exact other op' host) :
    Exact (if condition then counted else other) (if condition then op else op') host := by
  split
  · exact holds ‹_›
  · exact fails ‹_›

theorem exact_require {condition : Prop} [Decidable condition] {cause : Panic} {next : Unit → Counting σ β}
    {next' : Unit → Op σ β} (rest : condition → Exact (next ()) (next' ()) host) :
    Exact (plainly (Op.require condition cause) >>= next) (Op.require condition cause >>= next') host := by
  refine exact_bind (exact_plainly _) ((leads_require condition cause).mpr ?_)
  split
  · exact rest ‹_›
  · trivial

theorem exact_orAbort (exact : Exact counted op host) : Exact (orAbort counted) (Op.orAbort op) host := by
  simp only [Exact, plainly] at exact ⊢
  simp only [orAbort, Op.orAbort, exact]
  cases op host with
  | ok answer after => rfl
  | error fault after => cases fault <;> rfl

theorem exact_word {n : Int} {number : Nat} (value : n = number) (countable : number ≤ maxCount) :
    Exact (word n) (pure number) host := by
  subst value
  rw [word, if_pos ⟨Int.natCast_nonneg number, Int.ofNat_le.mpr countable⟩]
  rfl

theorem exact_sum {a b : Nat} (le : a + b ≤ maxCount) : Exact (sum a b) (pure (a + b)) host :=
  exact_word (Int.natCast_add a b).symm le

theorem exact_difference {a b : Nat} (le : b ≤ a) (countable : a ≤ maxCount) :
    Exact (difference a b) (pure (a - b)) host :=
  exact_word (Int.natCast_sub le).symm (Nat.le_trans (Nat.sub_le a b) countable)

/-- A place in the buffer has an offset of no more bytes than the buffer has. -/
theorem exact_slot {α : Type} [Stored α] {host : Host (Storage α)} {position : Nat}
    (le : position ≤ host.container.capacity) : Exact (slot position) (pure ()) host := by
  have offset : host.container.capacity * elementSize α ≤ maxBytes → position * elementSize α ≤ maxCount :=
    fun within => Nat.le_trans (Nat.mul_le_mul_right _ le) (Nat.le_trans within (by decide))
  refine exact_current ?_
  rw [if_pos ⟨le, offset⟩]
  exact exact_pure ()

/-- The turns of a loop compute numbers only. -/
theorem exact_turns {turn : Nat → Counting σ Unit} (count : Nat) {start : Nat}
    (each : ∀ i, start ≤ i → i < start + count → Exact (turn i) (pure ()) host) :
    Exact (turns start count turn) (pure ()) host := by
  induction count generalizing start with
  | zero => exact exact_pure ()
  | succ count ih =>
    refine exact_then (each start (Nat.le_refl start) (by omega)) ?_
    exact ih fun i above below => each i (by omega) (by omega)

/-- What every item of a list keeps makes the items exact one after the other. -/
theorem exact_forM {β : Type} (keeps : Host σ → Prop) {turn : β → Counting σ Unit} {turn' : β → Op σ Unit}
    (each : ∀ item host, keeps host → Exact (turn item) (turn' item) host)
    (kept : ∀ item host, keeps host → Leads (turn' item) host (fun _ after => keeps after) fun _ _ => True)
    (items : List β) {host : Host σ} (initial : keeps host) : Exact (items.forM turn) (items.forM turn') host := by
  induction items generalizing host with
  | nil => exact exact_pure ()
  | cons item rest ih =>
    exact exact_bind (each item host initial) ((kept item host initial).mono (fun _ _ => ih) fun _ _ => id)

end Rules

end Counting

/-- Its elements fit into its buffer, whose slots a machine word can count. -/
structure Vector.Countable {α : Type} (v : Vector α) : Prop where
  fits : v.Fits
  capacity_le : v.capacity ≤ maxCount

namespace Counting

section Operations
variable {α : Type} [Stored α] {host : Host (Vector α)} {position size n : Nat}

theorem exact_moveUp (place : position ≤ size) (room : size + n ≤ host.container.capacity)
    (countable : host.container.capacity ≤ maxCount) : Exact (moveUp position size n) (pure ()) host := by
  refine exact_then (exact_slot (by omega)) (exact_then (exact_sum (by omega)) ?_)
  refine exact_then (exact_slot (by omega)) (exact_then (exact_difference place (by omega)) ?_)
  exact exact_pure ()

theorem exact_moveDown {start : Nat} (gap : n ≤ start) (place : start ≤ size) (room : size ≤ host.container.capacity)
    (countable : host.container.capacity ≤ maxCount) : Exact (moveDown start size n) (pure ()) host := by
  refine exact_then (exact_slot (by omega)) (exact_then (exact_difference gap (by omega)) ?_)
  refine exact_then (exact_slot (by omega)) (exact_then (exact_difference place (by omega)) ?_)
  exact exact_pure ()

theorem exact_construct {start count : Nat} (room : start + count ≤ host.container.capacity)
    (countable : host.container.capacity ≤ maxCount) : Exact (construct start count) (pure ()) host := by
  refine exact_turns count fun i _ below => ?_
  exact exact_then (exact_slot (by omega)) (exact_then (exact_sum (by omega)) (exact_pure ()))

theorem exact_fillGap (within : position ≤ size) (several : n ≠ 0) (room : size + n ≤ host.container.capacity)
    (capacity : host.container.capacity ≤ maxCount) (x : α) :
    Exact (fillGap position size n x)
      (do Storage.rewrite fun slots => Slots.insert slots position n x; return position) host := by
  refine exact_then (exact_moveUp within room capacity) (exact_then (exact_difference (by omega) (by omega)) ?_)
  refine exact_then (exact_turns (n - 1) fun i _ below => ?_) ?_
  · exact exact_then (exact_sum (by omega)) (exact_slot (by omega))
  refine exact_then (exact_sum (by omega)) (exact_then (exact_difference (by omega) (by omega)) ?_)
  exact exact_then (exact_slot (by omega)) (exact_then (exact_sum (by omega)) (exact_reply (exact_plainly _) _))

theorem exact_truncate (countable : host.container.Countable) (size : Nat) :
    Exact (truncate size) (Vector.truncate size) host := by
  obtain ⟨fits, capacity⟩ := countable
  rw [Storage.Fits] at fits
  refine exact_current ?_
  split
  · exact exact_then (exact_slot (by omega)) (exact_then (exact_difference (by omega) (by omega)) (exact_plainly _))
  · exact exact_plainly _

theorem exact_eraseRange (countable : host.container.Countable) (start stop : Nat) :
    Exact (eraseRange start stop) (Vector.eraseRange start stop) host := by
  obtain ⟨fits, capacity⟩ := countable
  rw [Storage.Fits] at fits
  refine exact_reading (exact_ite (fun _ => exact_pure _) fun ordered => exact_require fun within => ?_)
  refine exact_then (exact_difference (by omega) (by omega)) (exact_then (exact_slot (by omega)) ?_)
  refine exact_then (exact_moveDown (by omega) within fits capacity) ?_
  exact exact_then (exact_difference (by omega) (by omega)) (exact_reply (exact_plainly _) _)

theorem exact_reallocate (countable : host.container.Countable) (count : Nat) :
    Exact (reallocate count) (Storage.reallocate count) host := by
  obtain ⟨fits, capacity⟩ := countable
  rw [Storage.Fits] at fits
  refine exact_current (exact_then (exact_slot (by omega)) (exact_then (exact_difference (by omega) (by omega)) ?_))
  exact exact_plainly _

theorem exact_growIfFull (countable : host.container.Countable) : Exact growIfFull Vector.growIfFull host := by
  refine exact_reading (exact_ite (fun _ => exact_reading (exact_ite (fun _ => ?_) fun _ => ?_)) fun _ => exact_pure ())
  · exact exact_reallocate countable _
  · exact exact_require fun _ => exact_reallocate countable _

theorem growIfFull_capacity_le (capacity : host.container.capacity ≤ maxCount) :
    Leads Vector.growIfFull host (fun _ after => after.container.capacity ≤ maxCount) fun _ _ => True := by
  refine Vector.growIfFull_then (fun _ le => ?_) (fun _ _ => trivial) fun _ => capacity
  exact (Storage.reallocate_leads host _).mono (fun _ _ moved => moved.2 ▸ le) fun _ _ _ => trivial

/-- Where a vector has grown if it was full, there is a slot behind its elements. -/
theorem growIfFull_opens (countable : host.container.Countable) :
    Leads Vector.growIfFull host
      (fun _ after => after.container.items = host.container.items ∧
        host.container.size < after.container.capacity ∧ after.container.capacity ≤ maxCount)
      fun _ _ => True :=
  ((Vector.growIfFull_leads host).and (growIfFull_capacity_le countable.capacity_le)).mono
    (fun _ _ both => ⟨both.1.1, both.1.2 countable.fits, both.2⟩) fun _ _ _ => trivial

/-- Where room was made, there are as many slots as are needed, and no more than can be counted. -/
theorem makeRoom_opens {needed : Nat} (countable : host.container.Countable) (le : needed ≤ maxCount)
    (lacking : host.container.capacity < needed) :
    Leads (Storage.reallocate (host.container.capacityFor needed)) host
      (fun _ after => after.container.items = host.container.items ∧ needed ≤ after.container.capacity ∧
        after.container.capacity ≤ maxCount)
      fun _ _ => True := by
  have more : host.container.size ≤ needed := Nat.le_trans countable.fits (Nat.le_of_lt lacking)
  refine ((Vector.makeRoom_leads more lacking).and (Storage.reallocate_leads host _)).mono ?_ fun _ _ _ => trivial
  rintro _ after ⟨⟨items, enough⟩, -, capacity⟩
  exact ⟨items, enough, capacity ▸ Vector.capacityFor_le _ le⟩

theorem exact_tryPush (countable : host.container.Countable) (x : α) :
    Exact (tryPush x) (Vector.tryPush x) host := by
  refine exact_current (exact_bind (exact_growIfFull countable) ?_)
  refine (growIfFull_opens countable).mono ?_ fun _ _ => id
  rintro _ after ⟨-, room, capacity⟩
  exact exact_then (exact_slot (Nat.le_of_lt room)) (exact_then (exact_sum (by omega)) (exact_plainly _))

theorem exact_tryInsert (countable : host.container.Countable) (position : Nat) (x : α) :
    Exact (tryInsert position x) (Vector.tryInsert position x) host := by
  refine exact_reading (exact_require fun within => exact_bind (exact_growIfFull countable) ?_)
  refine (growIfFull_opens countable).mono ?_ fun _ _ => id
  rintro _ after ⟨-, room, capacity⟩
  refine exact_then (exact_moveUp within room capacity) (exact_then (exact_slot (by omega)) ?_)
  exact exact_then (exact_sum (by omega)) (exact_reply (exact_plainly _) _)

theorem tryPush_countable (countable : host.container.Countable) (x : α) :
    Leads (Vector.tryPush x) host (fun _ after => after.container.Countable) fun _ _ => True := by
  rw [Vector.tryPush, leads_bind]
  refine (growIfFull_opens countable).mono ?_ fun _ _ => id
  rintro _ after ⟨items, room, capacity⟩
  have size : (after.container.items.push x).size ≤ after.container.capacity := by
    rw [items, Array.size_push]
    exact room
  exact ⟨size, capacity⟩

theorem exact_tryInsertMany (countable : host.container.Countable) (position n : Nat) (x : α) :
    Exact (tryInsertMany position n x) (Vector.tryInsertMany position n x) host := by
  refine exact_reading (exact_require fun within => exact_ite (fun _ => exact_pure _) fun several => ?_)
  refine exact_require fun le => exact_ite (fun lacking => ?_) fun enough => ?_
  · refine exact_bind (exact_reallocate countable _) ((makeRoom_opens countable le lacking).mono ?_ fun _ _ => id)
    rintro _ after ⟨-, room, capacity⟩
    exact exact_fillGap within several room capacity x
  · exact exact_fillGap within several (Nat.le_of_not_lt enough) countable.capacity_le x

theorem exact_resize [Inhabited α] (countable : host.container.Countable) {size : Nat} (le : size ≤ maxCount) :
    Exact (resize size) (Vector.resize size) host := by
  refine exact_reading (exact_ite (fun _ => exact_truncate countable size) fun longer => ?_)
  refine exact_ite (fun lacking => ?_) fun enough => ?_
  · refine exact_bind (exact_orAbort (exact_reallocate countable _)) ((leads_orAbort _).mpr ?_)
    refine (makeRoom_opens countable le lacking).mono ?_ fun _ _ => id
    rintro _ after ⟨-, room, capacity⟩
    exact exact_then (exact_construct (by omega) capacity) (exact_plainly _)
  · exact exact_then (exact_construct (by omega) countable.capacity_le) (exact_plainly _)

theorem exact_resizeWith (countable : host.container.Countable) {size : Nat} (le : size ≤ maxCount) (x : α) :
    Exact (resizeWith size x) (Vector.resizeWith size x) host := by
  refine exact_reading (exact_ite (fun longer => ?_) fun _ => exact_truncate countable size)
  refine exact_then (exact_difference (Nat.le_of_lt longer) le) (exact_reply (exact_orAbort ?_) _)
  exact exact_tryInsertMany countable _ _ x

theorem exact_tryReserve (countable : host.container.Countable) (capacity : Nat) :
    Exact (tryReserve capacity) (Vector.tryReserve capacity) host :=
  exact_reading (exact_ite (fun _ => exact_reallocate countable capacity) fun _ => exact_pure ())

theorem exact_tryAssign (countable : host.container.Countable) {items : List α} (le : items.length ≤ maxCount) :
    Exact (tryAssign items) (Vector.tryAssign items) host := by
  have clears : Leads Vector.clear host (fun _ after => after.container.engine = host.container.engine)
      fun _ _ => True := rfl
  refine exact_bind (exact_truncate countable 0) (clears.mono (fun _ left engine => ?_) fun _ _ => id)
  have room := Vector.le_capacityFor items.length left.container
  have counted := Vector.capacityFor_le left.container le
  refine exact_reading (exact_ite (fun lacking => ?_) fun enough => ?_)
  · refine exact_bind (exact_plainly _) ?_
    refine (Storage.reallocateDiscarding_leads left (Nat.lt_of_lt_of_le lacking room)).mono ?_ fun _ _ _ => trivial
    rintro _ after ⟨-, capacity⟩
    exact exact_then (exact_construct (by omega) (by omega)) (exact_plainly _)
  · have capacity := countable.capacity_le
    rw [Storage.capacity, ← engine] at capacity
    exact exact_then (exact_construct (by omega) capacity) (exact_plainly _)

theorem exact_announce (countable : host.container.Countable) (promised : Nat) :
    Exact (announce promised) (Vector.announce promised) host :=
  exact_reading (exact_ite (fun _ => exact_orAbort (exact_reallocate countable _)) fun _ => exact_pure ())

theorem announce_countable (countable : host.container.Countable) (promised : Nat) :
    Leads (Vector.announce promised) host (fun _ after => after.container.Countable) fun _ _ => True := by
  unfold Vector.announce
  apply current_then
  dsimp only
  split
  · rename_i lacking
    rw [leads_orAbort]
    refine (makeRoom_opens countable (Nat.min_le_right ..) lacking).mono ?_ fun _ _ => id
    rintro _ after ⟨items, room, capacity⟩
    have fits := countable.fits
    rw [Storage.Fits, Storage.size, ← items] at fits
    exact ⟨Nat.le_trans fits (Nat.le_trans (Nat.le_of_lt lacking) room), capacity⟩
  · exact countable

theorem exact_extendHinted (countable : host.container.Countable) (items : List α) (promised : Nat) :
    Exact (extendHinted items promised) (Vector.extendHinted items promised) host := by
  refine exact_bind (exact_announce countable promised) ?_
  refine (announce_countable countable promised).mono (fun _ after countable' => ?_) fun _ _ => id
  refine exact_forM (·.container.Countable) (fun x host counts => ?_) (fun x host counts => ?_) items countable'
  · exact exact_orAbort (exact_tryPush counts x)
  · exact (leads_orAbort _).mpr (tryPush_countable counts x)

end Operations

end Counting

namespace Vector
variable {α : Type} [Stored α] [BEq α] [Inhabited α] [Shown α]

/-- The commands that compute with the length and the capacity, where what they are given
fits into a machine word. -/
def Command.Computes : Command α → Prop
  | .push _ | .tryPush _ | .pushDefault | .clear => True
  | .insert position _ | .tryInsert position _ => position ≤ maxCount
  | .insertMany position n _ | .tryInsertMany position n _ => position ≤ maxCount ∧ n ≤ maxCount
  | .eraseRange start stop => start ≤ maxCount ∧ stop ≤ maxCount
  | .truncate size | .resize size | .resizeWith size _ => size ≤ maxCount
  | .reserve capacity | .tryReserve capacity | .setCapacity capacity => capacity ≤ maxCount
  | .assign items | .tryAssign items | .extend items => items.length ≤ maxCount
  | .extendHinted _ promised => promised ≤ maxCount
  | _ => False

/-- Carries out a command with the numbers that it computes. -/
def Command.counted : Command α → Counting (Vector α) (Reply α)
  | .push x => do Counting.orAbort (Counting.tryPush x); return .done
  | .tryPush x => do Counting.tryPush x; return .done
  | .pushDefault => do Counting.orAbort (Counting.tryPush default); return .done
  | .insert position x => Reply.place <$> Counting.orAbort (Counting.tryInsert position x)
  | .tryInsert position x => Reply.place <$> Counting.tryInsert position x
  | .insertMany position n x => Reply.place <$> Counting.orAbort (Counting.tryInsertMany position n x)
  | .tryInsertMany position n x => Reply.place <$> Counting.tryInsertMany position n x
  | .eraseRange start stop => Reply.place <$> Counting.eraseRange start stop
  | .truncate size => do Counting.truncate size; return .done
  | .clear => do Counting.truncate 0; return .done
  | .resize size => do Counting.resize size; return .done
  | .resizeWith size x => do Counting.resizeWith size x; return .done
  | .reserve capacity => do Counting.orAbort (Counting.tryReserve capacity); return .done
  | .tryReserve capacity => do Counting.tryReserve capacity; return .done
  | .setCapacity capacity => do Counting.orAbort (Counting.reallocate capacity); return .done
  | .assign items => do Counting.orAbort (Counting.tryAssign items); return .done
  | .tryAssign items => do Counting.tryAssign items; return .done
  | .extend items => do Counting.extendHinted items items.length; return .done
  | .extendHinted items promised => do Counting.extendHinted items promised; return .done
  | command => Counting.plainly command.perform

open Counting in
/-- Every command that computes does so within the range of a machine word. -/
theorem Command.counted_exact {host : Host (Vector α)} (countable : host.container.Countable) {command : Command α}
    (computes : command.Computes) : Exact command.counted command.perform host := by
  cases command with
  | push x => exact exact_reply (exact_orAbort (exact_tryPush countable x)) _
  | tryPush x => exact exact_reply (exact_tryPush countable x) _
  | pushDefault => exact exact_reply (exact_orAbort (exact_tryPush countable default)) _
  | insert position x => exact exact_map _ (exact_orAbort (exact_tryInsert countable position x))
  | tryInsert position x => exact exact_map _ (exact_tryInsert countable position x)
  | insertMany position n x => exact exact_map _ (exact_orAbort (exact_tryInsertMany countable position n x))
  | tryInsertMany position n x => exact exact_map _ (exact_tryInsertMany countable position n x)
  | eraseRange start stop => exact exact_map _ (exact_eraseRange countable start stop)
  | truncate size => exact exact_reply (exact_truncate countable size) _
  | clear => exact exact_reply (exact_truncate countable 0) _
  | resize size => exact exact_reply (exact_resize countable computes) _
  | resizeWith size x => exact exact_reply (exact_resizeWith countable computes x) _
  | reserve capacity => exact exact_reply (exact_orAbort (exact_tryReserve countable capacity)) _
  | tryReserve capacity => exact exact_reply (exact_tryReserve countable capacity) _
  | setCapacity capacity => exact exact_reply (exact_orAbort (exact_reallocate countable capacity)) _
  | assign items => exact exact_reply (exact_orAbort (exact_tryAssign countable computes)) _
  | tryAssign items => exact exact_reply (exact_tryAssign countable computes) _
  | extend items => exact exact_reply (exact_extendHinted countable items items.length) _
  | extendHinted items promised => exact exact_reply (exact_extendHinted countable items promised) _
  | _ => exact computes.elim

end Vector

end Containers
