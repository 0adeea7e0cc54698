import Containers.Proofs.Counting
import Containers.Proofs.StorageLedger

/-! What a vector on the heap asks of its allocator. A vector that grows knows beforehand the
capacities that it is going to move to, one after the other. For each of them it panics
without a request if the capacity is too large, and otherwise it asks for a buffer of exactly
so many slots, or for nothing if they take no bytes. -/
namespace Containers

/-- The layouts that an allocator was asked for, the latest first. -/
def History.requests (history : History) : List Layout :=
  history.filterMap fun
    | .granted block => some block.layout
    | .refused layout => some layout
    | .freed _ => none

theorem History.requests_free? (history : History) (owned : Option Block) :
    (history.free? owned).requests = history.requests := by
  cases owned <;> rfl

namespace Pool
variable {own : AllocatorId} {first second : List Layout} {before middle after : Pool}

/-- One of the allocators was asked for these layouts in turn, and the other for none. -/
def Asked (own : AllocatorId) (asked : List Layout) (before after : Pool) : Prop :=
  ∀ id, (after.get id).history.requests =
    (if id = own then asked.reverse else []) ++ (before.get id).history.requests

theorem asked_refl (own : AllocatorId) (pool : Pool) : pool.Asked own [] pool := by
  intro id
  split <;> rfl

/-- The latest event of an allocator is about the layout that it was asked for. -/
theorem asked_noting (own : AllocatorId) (pool : Pool) {allocator : Allocator} {layout : Layout}
    (about : allocator.history.requests = layout :: (pool.get own).history.requests) :
    pool.Asked own [layout] (pool.set allocator own) := by
  intro id
  rw [Pool.history_set]
  by_cases same : id = own
  · rw [if_pos same, if_pos same, about, same]
    rfl
  · rw [if_neg same, if_neg same]
    rfl

theorem Asked.trans (one : before.Asked own first middle) (more : middle.Asked own second after) :
    before.Asked own (first ++ second) after := by
  intro id
  rw [more id, one id, List.reverse_append]
  split
  · rw [List.append_assoc]
  · rfl

end Pool

/-- What a fault says about memory: the capacity is too large, or this layout was refused. -/
def Fault.shortage? : Fault → Option Fault
  | .panicked .capacityOverflow => some (.panicked .capacityOverflow)
  | .refused layout | .aborted layout => some (.refused layout)
  | _ => none

theorem Fault.shortage?_abort (fault : Fault) : fault.abort.shortage? = fault.shortage? := by
  cases fault <;> rfl

/-- What a step says about memory, if it ended with a fault. -/
def Step.shortage? {σ ρ : Type} (step : Step σ ρ) : Option Fault :=
  match step.outcome with
  | .ok _ => none
  | .error fault => fault.shortage?

theorem Step.shortage?_eq_overflow {σ ρ : Type} (step : Step σ ρ) :
    step.shortage? = some (.panicked .capacityOverflow) ↔ step.outcome = .error (.panicked .capacityOverflow) := by
  obtain ⟨outcome, after⟩ := step
  cases outcome with
  | ok answer => simp [shortage?]
  | error fault =>
    cases fault with
    | panicked cause => cases cause <;> simp [shortage?, Fault.shortage?]
    | _ => simp [shortage?, Fault.shortage?]

namespace Vector

/-- A capacity to move to, and the length that it was computed for. -/
structure Move where
  needed : Nat
  capacity : Nat

section Moves
variable {α : Type} [Stored α] {own : AllocatorId}

/-- There is no buffer of this capacity: it cannot be counted, or its bytes cannot. -/
def Move.TooLarge (α : Type) [Stored α] (move : Move) : Prop :=
  maxCount < move.capacity ∨ maxBytes < move.capacity * elementSize α

/-- What an allocator is asked for: exactly so many slots, or nothing where they take no bytes. -/
def Move.layouts (α : Type) [Stored α] (move : Move) : List Layout :=
  if move.capacity * elementSize α = 0 then [] else [(Stored.layout α).array move.capacity]

/-- What a vector asks for, and why it stops, if it moves to so many capacities in turn. -/
inductive Carried (α : Type) [Stored α] : List Move → List Layout → Option Fault → Prop where
  | done : Carried α [] [] none
  /-- A capacity that is too large ends in a panic before anything is asked for. -/
  | overflow {move : Move} {rest : List Move} (large : move.TooLarge α) :
      Carried α (move :: rest) [] (some (.panicked .capacityOverflow))
  | refused {move : Move} {rest : List Move} (small : ¬ move.TooLarge α)
      (nonempty : move.capacity * elementSize α ≠ 0) :
      Carried α (move :: rest) (move.layouts α) (some (.refused ((Stored.layout α).array move.capacity)))
  | made {move : Move} {rest : List Move} {asked : List Layout} {ended : Option Fault} (small : ¬ move.TooLarge α)
      (before : Carried α rest asked ended) : Carried α (move :: rest) (move.layouts α ++ asked) ended

variable {moves more : List Move} {asked : List Layout} {ended : Option Fault} {fault : Fault}

theorem Carried.append {later : List Layout} (carried : Carried α moves asked none)
    (next : Carried α more later ended) : Carried α (moves ++ more) (asked ++ later) ended := by
  generalize stops : (none : Option Fault) = stop at carried
  induction carried with
  | done => exact next
  | overflow _ => nomatch stops
  | refused _ _ => nomatch stops
  | made small _ ih =>
    rw [List.append_assoc]
    exact .made small (ih stops)

/-- What would have come next does not matter to a vector that stopped. -/
theorem Carried.stopped (carried : Carried α moves asked (some fault)) (more : List Move) :
    Carried α (moves ++ more) asked (some fault) := by
  generalize stops : some fault = stop at carried ⊢
  induction carried with
  | done => nomatch stops
  | overflow large => exact .overflow large
  | refused small nonempty => exact .refused small nonempty
  | made small _ ih => exact .made small (ih stops)

/-- Where there is one move at most, it alone decides whether the vector panics. -/
theorem Carried.overflow_iff (carried : Carried α moves asked ended) (most : moves.length ≤ 1) :
    ended = some (.panicked .capacityOverflow) ↔ ∃ move ∈ moves, move.TooLarge α := by
  cases carried with
  | done => simp
  | overflow large => exact ⟨fun _ => ⟨_, List.mem_cons_self, large⟩, fun _ => rfl⟩
  | @refused move rest small _ =>
    obtain rfl : rest = [] := List.length_eq_zero_iff.mp (Nat.le_zero.mp (Nat.le_of_succ_le_succ most))
    simpa using small
  | @made move rest _ _ small before =>
    obtain rfl : rest = [] := List.length_eq_zero_iff.mp (Nat.le_zero.mp (Nat.le_of_succ_le_succ most))
    cases before
    simpa using small

/-- Between these pools a vector carried out so many moves, or stopped at one of them. -/
def Sought (α : Type) [Stored α] (own : AllocatorId) (moves : List Move) (before : Pool) (ended : Option Fault)
    (after : Pool) : Prop :=
  ∃ asked, Carried α moves asked ended ∧ before.Asked own asked after

theorem sought_none (own : AllocatorId) (pool : Pool) : Sought α own [] pool none pool :=
  ⟨[], .done, Pool.asked_refl own pool⟩

end Moves

/-- A vector of so many elements in so many slots from this allocator. -/
structure Drawing {α : Type} (own : AllocatorId) (size capacity : Nat) (host : Host (Vector α)) : Prop where
  size_eq : host.container.size = size
  heap : ∃ address, host.container.engine = .heap own capacity address

theorem Drawing.capacity_eq {α : Type} {own : AllocatorId} {size capacity : Nat} {host : Host (Vector α)}
    (drawing : Drawing own size capacity host) : host.container.capacity = capacity := by
  obtain ⟨address, heap⟩ := drawing.heap
  rw [Storage.capacity, heap, Engine.capacity]

section Growth
variable {σ α β γ : Type} [Stored α] {own : AllocatorId} {moves more : List Move}

/-- The operation makes so many moves; it fails only because it has to stop at one of them. -/
def Grows (α : Type) [Stored α] (own : AllocatorId) (moves : List Move) (op : Op σ β) (host : Host σ)
    (done : Host σ → Prop) : Prop :=
  Leads op host (fun _ after => Sought α own moves host.pool none after.pool ∧ done after)
    fun fault after => ∃ short, fault.shortage? = some short ∧ Sought α own moves host.pool (some short) after.pool

variable {host : Host σ} {op : Op σ β} {done done' : Host σ → Prop}

theorem grows_bind {next : β → Op σ γ} (first : Grows α own moves op host done)
    (rest : ∀ answer after, done after → Grows α own more (next answer) after done') :
    Grows α own (moves ++ more) (op >>= next) host done' := by
  rw [Grows, leads_bind]
  refine Leads.mono first ?_ ?_
  · rintro answer middle ⟨⟨asked, carried, between⟩, here⟩
    refine (rest answer middle here).mono ?_ ?_
    · rintro _ after ⟨⟨later, carried', after'⟩, there⟩
      exact ⟨⟨asked ++ later, carried.append carried', between.trans after'⟩, there⟩
    · rintro fault after ⟨short, named, later, carried', after'⟩
      exact ⟨short, named, asked ++ later, carried.append carried', between.trans after'⟩
  · rintro fault after ⟨short, named, asked, carried, between⟩
    exact ⟨short, named, asked, carried.stopped more, between⟩

/-- Behind the moves nothing fails, and nothing is asked for. -/
theorem grows_then {next : β → Op σ γ} (first : Grows α own moves op host done)
    (rest : ∀ answer after, done after → Sure (next answer) after fun _ last => last.pool = after.pool ∧ done' last) :
    Grows α own moves (op >>= next) host done' := by
  rw [Grows, leads_bind]
  refine Leads.mono first ?_ fun _ _ => id
  rintro answer middle ⟨sought, here⟩
  refine (rest answer middle here).weaken ?_
  rintro _ after ⟨same, there⟩
  exact ⟨same ▸ sought, there⟩

theorem grows_orAbort (grows : Grows α own moves op host done) : Grows α own moves (Op.orAbort op) host done := by
  rw [Grows, leads_orAbort]
  refine Leads.mono grows (fun _ _ => id) ?_
  rintro fault after ⟨short, named, sought⟩
  exact ⟨short, (fault.shortage?_abort).trans named, sought⟩

theorem grows_pure {answer : β} (here : done host) : Grows α own [] (pure answer) host done :=
  ⟨sought_none own host.pool, here⟩

theorem Grows.mono (grows : Grows α own moves op host done) (also : ∀ after, done after → done' after) :
    Grows α own moves op host done' :=
  Leads.mono grows (fun _ after both => ⟨both.1, also after both.2⟩) fun _ _ => id

/-- A buffer is obtained by one request, if it takes any bytes. -/
theorem acquire_grows (host : Host σ) (move : Move) (countable : move.capacity ≤ maxCount) :
    Grows α own [move] (Storage.acquire α own move.capacity) host fun after => after.container = host.container := by
  unfold Storage.acquire
  rw [Grows, leads_bind, leads_require]
  split
  · rename_i within
    have small : ¬ move.TooLarge α := by
      rintro (uncountable | large)
      · exact absurd countable (Nat.not_le.mpr uncountable)
      · exact absurd within (Nat.not_le.mpr large)
    have made : Carried α [move] (move.layouts α) none := List.append_nil (move.layouts α) ▸ .made small .done
    split
    · rename_i empty
      rw [Move.layouts, if_pos empty] at made
      exact ⟨⟨[], made, Pool.asked_refl own host.pool⟩, rfl⟩
    · rename_i nonempty
      have refused : Carried α [move] _ _ := .refused small nonempty
      rw [Move.layouts, if_neg nonempty] at made refused
      rw [leads_bind, leads_request]
      cases rule : (host.pool.get own).admits ((Stored.layout α).array move.capacity) with
      | true =>
        simp only [Pool.allocate, Allocator.allocate, rule, ↓reduceIte]
        exact ⟨⟨_, made, Pool.asked_noting own host.pool rfl⟩, rfl⟩
      | false =>
        simp only [Pool.allocate, Allocator.allocate, rule, Bool.false_eq_true, ↓reduceIte]
        exact ⟨_, rfl, _, refused, Pool.asked_noting own host.pool rfl⟩
  · rename_i large
    exact ⟨_, rfl, [], .overflow (.inr (Nat.not_le.mp large)), Pool.asked_refl own host.pool⟩

/-- Blocks that are freed are not asked for. -/
theorem Sought.release {before after : Pool} {ended : Option Fault} (sought : Sought α own moves before ended after)
    (engine : Engine) : Sought α own moves before ended (engine.release α after) := by
  obtain ⟨asked, carried, between⟩ := sought
  refine ⟨asked, carried, fun id => ?_⟩
  rw [Engine.release_history, History.requests_free?, between id]

variable {host : Host (Vector α)} {size capacity needed : Nat} {move : Move}

/-- The old buffer is freed, and nothing else is done, before the vector moves to the new one. -/
theorem grows_moved {items : Array α} (engine : Engine)
    (grows : Grows α own [move] (Storage.acquire α own move.capacity) host
      fun after => after.container = host.container) :
    Grows α own [move] (do
        let address ← Storage.acquire α own move.capacity
        Op.settle (engine.release α)
        Op.become ⟨.heap own move.capacity address, items⟩) host
      (Drawing own items.size move.capacity) := by
  rw [Grows, leads_bind]
  refine Leads.mono grows ?_ fun _ _ => id
  rintro address after ⟨sought, -⟩
  exact ⟨sought.release engine, rfl, address, rfl⟩

theorem reallocate_grows (drawing : Drawing own size capacity host) (move : Move)
    (countable : move.capacity ≤ maxCount) :
    Grows α own [move] (Storage.reallocate move.capacity) host
      (Drawing own (min size move.capacity) move.capacity) := by
  obtain ⟨address, heap⟩ := drawing.heap
  unfold Storage.reallocate
  apply current_then
  rw [heap]
  refine (grows_moved _ (acquire_grows host move countable)).mono fun after drawing' => ?_
  have kept : (host.container.items.extract 0 (min host.container.size move.capacity)).size =
      min size move.capacity := by
    rw [Array.size_extract, ← drawing.size_eq, Storage.size]
    omega
  exact kept ▸ drawing'

theorem reallocateDiscarding_grows (drawing : Drawing own size capacity host) (move : Move)
    (countable : move.capacity ≤ maxCount) (more : capacity < move.capacity) :
    Grows α own [move] (Storage.reallocateDiscarding move.capacity) host (Drawing own 0 move.capacity) := by
  obtain ⟨address, heap⟩ := drawing.heap
  unfold Storage.reallocateDiscarding
  apply current_then
  rw [heap]
  change Leads (Op.require (capacity < move.capacity) .discardWithoutGrowth >>= fun _ => _) host _ _
  rw [leads_bind, leads_require, if_pos more]
  exact grows_moved _ (acquire_grows host move countable)

/-- The move of a vector that is to take one more element, if it is full. -/
def growth (size capacity : Nat) : List Move :=
  if size = capacity then [⟨size + 1, doubled capacity⟩] else []

/-- The capacity of a vector that may take one more element. -/
def grown (size capacity : Nat) : Nat :=
  if size = capacity then doubled capacity else capacity

/-- The moves of a vector to which so many elements are pushed. -/
def pushMoves : Nat → Nat → Nat → List Move
  | 0, _, _ => []
  | count + 1, size, capacity => growth size capacity ++ pushMoves count (size + 1) (grown size capacity)

/-- The move of a vector that is to have room for so many elements. -/
def room {α : Type} (v : Vector α) (needed : Nat) : List Move :=
  if v.capacity < needed then [⟨needed, v.capacityFor needed⟩] else []

/-- The capacity of a vector in which there is room for so many elements. -/
def roomy {α : Type} (v : Vector α) (needed : Nat) : Nat :=
  if v.capacity < needed then v.capacityFor needed else v.capacity

/-- The moves of a vector to which so many elements are appended after some of them were announced. -/
def extension {α : Type} (v : Vector α) (count promised : Nat) : List Move :=
  room v (min (v.size + promised) maxCount) ++
    pushMoves count v.size (roomy v (min (v.size + promised) maxCount))

theorem room_eq_nil {α : Type} {v : Vector α} {needed : Nat} (enough : needed ≤ v.capacity) : room v needed = [] :=
  if_neg (Nat.not_lt.mpr enough)

theorem growIfFull_grows (drawing : Drawing own size capacity host) :
    Grows α own (growth size capacity) growIfFull host (Drawing own size (grown size capacity)) := by
  have same : host.container.size = host.container.capacity ↔ size = capacity := by
    rw [drawing.size_eq, drawing.capacity_eq]
  refine growIfFull_then (fun full le => ?_) (fun full large => ?_) fun room => ?_
  · rw [drawing.capacity_eq] at le ⊢
    have moves := reallocate_grows drawing ⟨size + 1, doubled capacity⟩ le
    rw [Nat.min_eq_left (same.mp full ▸ Nat.le_of_lt (lt_doubled size))] at moves
    rw [growth, if_pos (same.mp full), grown, if_pos (same.mp full)]
    exact moves
  · -- twice the capacity cannot be counted, and the storage is not even told of it
    rw [drawing.capacity_eq] at large
    rw [growth, if_pos (same.mp full)]
    exact ⟨_, rfl, [], .overflow (.inl large), Pool.asked_refl own host.pool⟩
  · have room : ¬ size = capacity := fun full => room (same.mpr full)
    rw [growth, if_neg room, grown, if_neg room]
    exact ⟨sought_none own host.pool, drawing⟩

theorem tryPush_grows (drawing : Drawing own size capacity host) (x : α) :
    Grows α own (growth size capacity) (tryPush x) host (Drawing own (size + 1) (grown size capacity)) := by
  refine grows_then (growIfFull_grows drawing) fun _ after drawing' => ⟨rfl, ?_, drawing'.heap⟩
  rw [← drawing'.size_eq]
  exact Array.size_push x

theorem pushes_grow (items : List α) (drawing : Drawing own size capacity host) :
    Grows α own (pushMoves items.length size capacity) (items.forM push) host fun _ => True := by
  induction items generalizing host size capacity with
  | nil => exact grows_pure trivial
  | cons x rest ih => exact grows_bind (grows_orAbort (tryPush_grows drawing x)) fun _ _ drawing' => ih drawing'

theorem makeRoom_grows (drawing : Drawing own size capacity host) (le : needed ≤ maxCount) :
    Grows α own [⟨needed, host.container.capacityFor needed⟩]
      (Storage.reallocate (host.container.capacityFor needed)) host
      (Drawing own (min size (host.container.capacityFor needed)) (host.container.capacityFor needed)) :=
  reallocate_grows drawing ⟨needed, host.container.capacityFor needed⟩ (capacityFor_le _ le)

theorem announce_grows (drawing : Drawing own size capacity host) (fits : host.container.Fits) (promised : Nat) :
    Grows α own (room host.container (min (size + promised) maxCount)) (announce promised) host
      (Drawing own size (roomy host.container (min (size + promised) maxCount))) := by
  unfold announce
  apply current_then
  dsimp only
  rw [drawing.size_eq]
  have le : min (size + promised) maxCount ≤ maxCount := Nat.min_le_right ..
  generalize min (size + promised) maxCount = wanted at le ⊢
  unfold room roomy
  split
  · rename_i lacking
    have more := le_capacityFor wanted host.container
    rw [Storage.Fits, drawing.size_eq] at fits
    have makes := makeRoom_grows drawing le
    rw [Nat.min_eq_left (by omega)] at makes
    exact grows_orAbort makes
  · exact grows_pure ⟨drawing.size_eq, drawing.capacity_eq ▸ drawing.heap⟩

theorem extendHinted_grows (drawing : Drawing own size capacity host) (fits : host.container.Fits) (items : List α)
    (promised : Nat) :
    Grows α own (extension host.container items.length promised) (extendHinted items promised) host fun _ => True := by
  unfold extension
  rw [drawing.size_eq]
  exact grows_bind (announce_grows drawing fits promised) fun _ _ drawing' => pushes_grow items drawing'

end Growth

end Vector

end Containers
