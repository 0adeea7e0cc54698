import Containers.Element.Basic
import Containers.Proofs.VectorRuns
import Mathlib.Algebra.Group.Nat.Defs

/-! Adding one element to a vector. There are two ways to compute the capacity that a full
vector moves to, and two ways to bring an element to its place. While elements can be
counted twice over they come to the same: whoever adds an element asks for the same
buffer, fails for the same cause, and leaves the same elements in the same place. -/
namespace Containers.Vector
variable {α β : Type}

/-- Behind the last element there is no tail to move. -/
theorem slots_insert_end (slots : Array α) (x : α) : Slots.insert slots slots.size 1 x = slots.push x := by
  apply Array.toList_inj.mp
  rw [Slots.toList_insert (Nat.le_refl _), Array.toList_push, ← Array.length_toList, List.take_length,
    List.drop_length]
  rfl

/-- The capacity for one element more than there are is the double of the present one. -/
theorem capacityFor_next {v : Vector α} (full : v.size = v.capacity) (few : v.size < 2 ^ 63) :
    v.capacityFor (v.size + 1) = doubled v.capacity := by
  unfold capacityFor doubled maxCount initialCapacity
  split <;> omega

variable [Stored α] {host : Host (Vector α)}

/-- A full vector grows to the capacity for one element more than there are. -/
theorem growIfFull_eq (fits : host.container.Fits) (few : host.container.size < 2 ^ 63) :
    growIfFull host = (if host.container.capacity < host.container.size + 1 then
      Storage.reallocate (host.container.capacityFor (host.container.size + 1)) else pure () : Op (Vector α) Unit)
        host := by
  rw [Storage.Fits] at fits
  change (if host.container.size = host.container.capacity then grow else pure () : Op (Vector α) Unit) host = _
  by_cases full : host.container.size = host.container.capacity
  · have countable : 2 * host.container.capacity ≤ maxCount := by
      unfold maxCount
      omega
    rw [if_pos full, if_pos (by omega), capacityFor_next full few, doubled]
    change (if host.container.capacity = 0 then Storage.reallocate initialCapacity else do
      Op.require (2 * host.container.capacity ≤ maxCount) .capacityOverflow
      Storage.reallocate (2 * host.container.capacity) : Op (Vector α) Unit) host = _
    rw [Op.require, if_pos countable]
    split <;> rfl
  · rw [if_neg full, if_neg (by omega)]

/-- Room for one more element is made in the same way, however its capacity is computed. -/
theorem makeRoom_then (fits : host.container.Fits) (few : host.container.size < 2 ^ 63) (next : Op (Vector α) β) :
    (if host.container.capacity < host.container.size + 1 then do
        Storage.reallocate (host.container.capacityFor (host.container.size + 1))
        next
      else next : Op (Vector α) β) host = (do growIfFull; next : Op (Vector α) β) host := by
  simp only [bind, EStateM.bind, growIfFull_eq fits few]
  split <;> rfl

/-- One copy goes in as an element does, within the length and beyond it. -/
theorem tryInsertMany_one (fits : host.container.Fits) (few : host.container.size < 2 ^ 63) (position : Nat) (x : α) :
    tryInsertMany position 1 x host = tryInsert position x host := by
  have countable : host.container.size + 1 ≤ maxCount := by
    unfold maxCount
    omega
  unfold tryInsertMany tryInsert
  simp only [Nat.one_ne_zero, ↓reduceIte]
  change (do
    Op.require (position ≤ host.container.size) (.insertIndex position host.container.size)
    _ : Op (Vector α) Nat) host = (do
    Op.require (position ≤ host.container.size) (.insertIndex position host.container.size)
    _ : Op (Vector α) Nat) host
  unfold Op.require
  rw [if_pos countable]
  split
  · exact makeRoom_then fits few _
  · rfl

/-- Behind the last element an insertion appends. -/
theorem tryInsert_end (host : Host (Vector α)) (x : α) :
    tryInsert host.container.size x host = (do tryPush x; return host.container.size : Op (Vector α) Nat) host := by
  have grows := growIfFull_leads host
  have inserts : tryInsert host.container.size x host = (do
      growIfFull
      Storage.rewrite fun slots => Slots.insert slots host.container.size 1 x
      return host.container.size : Op (Vector α) Nat) host := by
    change (do
      Op.require (host.container.size ≤ host.container.size) (.insertIndex host.container.size host.container.size)
      _ : Op (Vector α) Nat) host = _
    rw [Op.require, if_pos (Nat.le_refl _)]
    rfl
  simp only [Leads] at grows
  rw [inserts, tryPush]
  simp only [bind, EStateM.bind]
  cases ran : growIfFull host with
  | error fault after => rfl
  | ok answer after =>
    rw [ran] at grows
    -- growing moved the elements at most, so the place is still the one behind them
    have place : host.container.size = after.container.items.size := by rw [grows.1, Storage.size]
    simp only [Storage.rewrite, Op.update, place, slots_insert_end]

theorem insertMany_one (fits : host.container.Fits) (few : host.container.size < 2 ^ 63) (position : Nat) (x : α) :
    insertMany position 1 x host = insert position x host := by
  rw [insertMany, insert, Op.orAbort, Op.orAbort, tryInsertMany_one fits few]

/-- Whether a refusal is returned or ends the run, the place is passed on. -/
theorem insert_end (host : Host (Vector α)) (x : α) :
    insert host.container.size x host = (do push x; return host.container.size : Op (Vector α) Nat) host := by
  simp only [insert, push, Op.orAbort, tryInsert_end, bind, EStateM.bind]
  cases tryPush x host with
  | ok answer after => rfl
  | error fault after => cases fault <;> rfl

theorem resizeWith_next (fits : host.container.Fits) (few : host.container.size < 2 ^ 63) (x : α) :
    resizeWith (host.container.size + 1) x host = push x host := by
  have longer : host.container.size < host.container.size + 1 := Nat.lt_succ_self _
  unfold resizeWith
  change (if host.container.size < host.container.size + 1 then do
      let _ ← insertMany host.container.size (host.container.size + 1 - host.container.size) x
    else truncate (host.container.size + 1) : Op (Vector α) Unit) host = _
  rw [if_pos longer, Nat.add_sub_cancel_left]
  simp only [bind, EStateM.bind, insertMany_one fits few, insert_end]
  cases push x host <;> rfl

/-- Where room was made there is nothing left to grow. -/
theorem growIfFull_room (room : host.container.size ≠ host.container.capacity) : growIfFull host = .ok () host := by
  change (if host.container.size = host.container.capacity then grow else pure () : Op (Vector α) Unit) host = _
  rw [if_neg room]
  rfl

/-- An announced element finds the room that was made for it. -/
theorem extend_one (fits : host.container.Fits) (few : host.container.size < 2 ^ 63) (x : α) :
    extend [x] host = push x host := by
  have wanted : min (host.container.size + 1) maxCount = host.container.size + 1 := by
    unfold maxCount
    omega
  have announces : announce 1 host = Op.orAbort growIfFull host := by
    change (if host.container.capacity < min (host.container.size + 1) maxCount then
      Op.orAbort (Storage.reallocate (host.container.capacityFor (min (host.container.size + 1) maxCount)))
      else pure () : Op (Vector α) Unit) host = _
    rw [wanted, Op.orAbort, growIfFull_eq fits few]
    split <;> rfl
  have grows := growIfFull_leads host
  simp only [Leads] at grows
  change (do announce 1; push x; pure () : Op (Vector α) Unit) host = _
  simp only [bind, EStateM.bind, announces, push, tryPush, Op.orAbort]
  cases ran : growIfFull host with
  | error fault after => cases fault <;> rfl
  | ok answer after =>
    rw [ran] at grows
    obtain ⟨items, room⟩ := grows
    have differs : after.container.size ≠ after.container.capacity := by
      rw [Storage.size, items]
      exact Nat.ne_of_lt (room fits)
    simp only [growIfFull_room differs]
    rfl

/-- Every state of a run fits into its buffer. -/
theorem states_fit [BEq α] [Inhabited α] [Shown α] (engine : Engine) (pool : Pool) (commands : List (Command α)) :
    ∀ host ∈ Session.states Command.perform commands ⟨⟨engine, #[]⟩, pool⟩, host.container.Fits := by
  have holds : ∀ host ∈ Session.states Command.perform commands ⟨⟨engine, #[]⟩, pool⟩,
      ∃ items, Holds host.container items := by
    refine Session.states_keep (fun host => ∃ items, Holds host.container items) ?_ commands ⟨[], holds_empty engine⟩
    rintro command host ⟨items, holds⟩
    exact ⟨_, (perform_agrees holds command).holds holds⟩
  intro host reached
  obtain ⟨items, holds⟩ := holds host reached
  exact holds.fits

/-- From every state of a run with fewer than half as many elements as can be counted, the
ways to add one element end alike: they answer or fail with the same cause, and they leave
the same elements in the same buffer and the allocators with the same requests and frees
behind them. Only where an element goes is answered by some and not by others. -/
theorem adding_one_agrees [BEq α] [Inhabited α] [Shown α] (engine : Engine) (pool : Pool) (commands : List (Command α))
    (host : Host (Vector α)) (reached : host ∈ Session.states Command.perform commands ⟨⟨engine, #[]⟩, pool⟩)
    (few : host.container.size < 2 ^ 63) (x : α) :
    (tryInsert host.container.size x host = (do tryPush x; return host.container.size : Op (Vector α) Nat) host ∧
      tryInsertMany host.container.size 1 x host =
        (do tryPush x; return host.container.size : Op (Vector α) Nat) host) ∧
    (insert host.container.size x host = (do push x; return host.container.size : Op (Vector α) Nat) host ∧
      insertMany host.container.size 1 x host = (do push x; return host.container.size : Op (Vector α) Nat) host ∧
      resizeWith (host.container.size + 1) x host = push x host ∧ extend [x] host = push x host) ∧
    ∀ position, tryInsertMany position 1 x host = tryInsert position x host ∧
      insertMany position 1 x host = insert position x host := by
  have fits := states_fit engine pool commands host reached
  refine ⟨⟨tryInsert_end host x, ?_⟩, ⟨insert_end host x, ?_, resizeWith_next fits few x, extend_one fits few x⟩, ?_⟩
  · exact (tryInsertMany_one fits few _ x).trans (tryInsert_end host x)
  · exact (insertMany_one fits few _ x).trans (insert_end host x)
  · exact fun position => ⟨tryInsertMany_one fits few position x, insertMany_one fits few position x⟩

/-- A vector that is full for ever: whoever adds a third element panics in the same way. -/
theorem adding_one_agrees_full :
    ((⟨⟨.inline 2, #[5, 6]⟩, ⟨⟨.unlimited, 0, []⟩, ⟨.unlimited, 0, []⟩⟩⟩ : Host (Vector Int64)) ∈
      Session.states Command.perform [.push 5, .push 6]
        ⟨⟨.inline 2, #[]⟩, ⟨⟨.unlimited, 0, []⟩, ⟨.unlimited, 0, []⟩⟩⟩) ∧ 2 < 2 ^ 63 ∧
    extend [7] (⟨⟨.inline 2, #[5, 6]⟩, ⟨⟨.unlimited, 0, []⟩, ⟨.unlimited, 0, []⟩⟩⟩ : Host (Vector Int64)) =
      push 7 ⟨⟨.inline 2, #[5, 6]⟩, ⟨⟨.unlimited, 0, []⟩, ⟨.unlimited, 0, []⟩⟩⟩ ∧
    tryInsertMany 1 1 7 (⟨⟨.inline 2, #[5, 6]⟩, ⟨⟨.unlimited, 0, []⟩, ⟨.unlimited, 0, []⟩⟩⟩ : Host (Vector Int64)) =
      tryInsert 1 7 ⟨⟨.inline 2, #[5, 6]⟩, ⟨⟨.unlimited, 0, []⟩, ⟨.unlimited, 0, []⟩⟩⟩ := by
  have reached : (⟨⟨.inline 2, #[5, 6]⟩, ⟨⟨.unlimited, 0, []⟩, ⟨.unlimited, 0, []⟩⟩⟩ : Host (Vector Int64)) ∈
      Session.states Command.perform [.push 5, .push 6]
        ⟨⟨.inline 2, #[]⟩, ⟨⟨.unlimited, 0, []⟩, ⟨.unlimited, 0, []⟩⟩⟩ := List.mem_of_getElem? (i := 2) rfl
  have agrees := adding_one_agrees _ _ _ _ reached (by decide) 7
  exact ⟨reached, by decide, agrees.2.1.2.2.2, (agrees.2.2 1).1⟩

end Containers.Vector
