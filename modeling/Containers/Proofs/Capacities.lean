import Containers.Element.Basic
import Containers.Proofs.Requests
import Mathlib.Algebra.Group.Nat.Defs

/-! The capacities that the commands of a vector move it to. Each of them is at least the
length that it was computed for, and it can be counted unless so many copies are inserted
that the length cannot. So a command panics where its length cannot be counted, or where the
bytes of a capacity cannot, and otherwise it asks for exactly so many slots. -/
namespace Containers.Vector

section Commands
variable {α β γ : Type} [Stored α] {own : AllocatorId} {moves : List Move} {host : Host (Vector α)}
  {op : Op (Vector α) β}

/-- However the operation ends, it makes so many moves or stops at one of them. -/
def Seeks (own : AllocatorId) (moves : List Move) (op : Op (Vector α) β) (host : Host (Vector α)) : Prop :=
  Leads op host (fun _ after => Sought α own moves host.pool none after.pool)
    fun fault after => Sought α own moves host.pool fault.shortage? after.pool

theorem Grows.seeks {done : Host (Vector α) → Prop} (grows : Grows α own moves op host done) :
    Seeks own moves op host := by
  refine Leads.mono grows (fun _ _ => And.left) ?_
  rintro fault after ⟨short, named, sought⟩
  exact named ▸ sought

theorem seeks_orAbort (seeks : Seeks own moves op host) : Seeks own moves (Op.orAbort op) host :=
  (leads_orAbort op).mpr (Leads.mono seeks (fun _ _ => id) fun fault _ sought => fault.shortage?_abort ▸ sought)

theorem seeks_map (f : β → γ) (seeks : Seeks own moves op host) : Seeks own moves (f <$> op) host :=
  (leads_map f op).mpr seeks

theorem seeks_reply (seeks : Seeks own moves op host) (reply : γ) :
    Seeks own moves (do let _ ← op; return reply) host :=
  (leads_bind op _).mpr seeks

theorem seeks_idle (sure : Sure op host fun _ after => after.pool = host.pool) : Seeks own [] op host :=
  sure.weaken fun _ _ same => same.symm ▸ sought_none own host.pool

/-- A condition that has nothing to do with memory is checked before anything is asked for. -/
theorem seeks_require {condition : Prop} [Decidable condition] {cause : Panic} {next : Unit → Op (Vector α) β}
    (plain : (Fault.panicked cause).shortage? = none) (unmet : ¬ condition → moves = [])
    (rest : condition → Seeks own moves (next ()) host) :
    Seeks own moves (Op.require condition cause >>= next) host := by
  rw [Seeks, leads_bind, leads_require]
  split
  · exact rest ‹_›
  · rw [plain, unmet ‹_›]
    exact sought_none own host.pool

/-- A first step that asks for nothing. -/
theorem seeks_after {next : β → Op (Vector α) γ}
    (first : Sure op host fun answer after => after.pool = host.pool ∧ Seeks own moves (next answer) after) :
    Seeks own moves (op >>= next) host := by
  rw [Seeks, leads_bind]
  refine first.weaken ?_
  rintro answer after ⟨same, seeks⟩
  rwa [Seeks, same] at seeks

/-- Behind the moves nothing is asked for. -/
theorem seeks_then {done : Host (Vector α) → Prop} {next : β → Op (Vector α) γ} (grows : Grows α own moves op host done)
    (rest : ∀ answer after, Sure (next answer) after fun _ last => last.pool = after.pool) :
    Seeks own moves (op >>= next) host := by
  have grows' : Grows α own moves (op >>= next) host fun _ => True :=
    grows_then grows fun answer after _ => (rest answer after).weaken fun _ _ same => ⟨same, trivial⟩
  exact grows'.seeks

variable {size capacity needed : Nat}

/-- Room is made, in whatever way, and then nothing else is asked for. -/
theorem seeks_room {done : Host (Vector α) → Prop} {make : Op (Vector α) Unit} {next : Unit → Op (Vector α) β}
    (makes : host.container.capacity < needed →
      Grows α own [⟨needed, host.container.capacityFor needed⟩] make host done)
    (rest : ∀ after, Sure (next ()) after fun _ last => last.pool = after.pool) :
    Seeks own (room host.container needed)
      (if host.container.capacity < needed then make >>= next else next ()) host := by
  unfold room
  split
  · exact seeks_then (makes ‹_›) fun _ => rest
  · exact seeks_idle (rest host)

theorem tryInsert_seeks (drawing : Drawing own size capacity host) (position : Nat) (x : α) :
    Seeks own (if position ≤ host.container.size then growth host.container.size host.container.capacity else [])
      (tryInsert position x) host := by
  unfold tryInsert
  apply current_then
  refine seeks_require rfl (fun beyond => if_neg beyond) fun within => ?_
  rw [if_pos within, drawing.size_eq, drawing.capacity_eq]
  exact seeks_then (growIfFull_grows drawing) fun _ _ => rfl

theorem tryInsertMany_seeks (drawing : Drawing own size capacity host) (fits : host.container.Fits)
    (countable : capacity ≤ maxCount) (position n : Nat) (x : α) :
    Seeks own (if position ≤ host.container.size then room host.container (host.container.size + n) else [])
      (tryInsertMany position n x) host := by
  unfold tryInsertMany
  apply current_then
  refine seeks_require rfl (fun beyond => if_neg beyond) fun within => ?_
  rw [if_pos within]
  split
  · rename_i empty
    rw [room_eq_nil (by rw [empty]; exact fits)]
    exact seeks_idle rfl
  · rw [Seeks, leads_bind, leads_require]
    split
    · rename_i le
      exact seeks_room (fun _ => makeRoom_grows drawing le) fun _ => rfl
    · -- where the length cannot be counted, neither can the capacity that would be moved to
      rename_i large
      have lacking : host.container.capacity < host.container.size + n := by
        rw [drawing.capacity_eq]
        omega
      have beyond := le_capacityFor (host.container.size + n) host.container
      rw [room, if_pos lacking]
      exact ⟨[], .overflow (.inl (Nat.lt_of_lt_of_le (Nat.not_le.mp large) beyond)), Pool.asked_refl own host.pool⟩

theorem resize_seeks [Inhabited α] (drawing : Drawing own size capacity host) (fits : host.container.Fits)
    {wanted : Nat} (le : wanted ≤ maxCount) : Seeks own (room host.container wanted) (resize wanted) host := by
  unfold resize
  apply current_then
  split
  · rename_i shorter
    rw [room_eq_nil (Nat.le_trans shorter fits)]
    exact seeks_idle rfl
  · exact seeks_room (fun _ => grows_orAbort (makeRoom_grows drawing le)) fun _ => rfl

theorem resizeWith_seeks (drawing : Drawing own size capacity host) (fits : host.container.Fits)
    (countable : capacity ≤ maxCount) (wanted : Nat) (x : α) :
    Seeks own (room host.container wanted) (resizeWith wanted x) host := by
  unfold resizeWith
  apply current_then
  split
  · rename_i longer
    have inserts := tryInsertMany_seeks drawing fits countable host.container.size (wanted - host.container.size) x
    rw [if_pos (Nat.le_refl _), Nat.add_sub_cancel' (Nat.le_of_lt longer)] at inserts
    exact seeks_reply (seeks_orAbort inserts) _
  · rename_i shorter
    rw [room_eq_nil (Nat.le_trans (Nat.not_lt.mp shorter) fits)]
    exact seeks_idle rfl

theorem tryReserve_seeks (drawing : Drawing own size capacity host) {wanted : Nat} (le : wanted ≤ maxCount) :
    Seeks own (if host.container.capacity < wanted then [⟨wanted, wanted⟩] else []) (tryReserve wanted) host := by
  unfold tryReserve
  apply current_then
  split
  · exact (reallocate_grows drawing ⟨wanted, wanted⟩ le).seeks
  · exact seeks_idle rfl

theorem tryAssign_seeks (drawing : Drawing own size capacity host) {items : List α} (le : items.length ≤ maxCount) :
    Seeks own (room host.container items.length) (tryAssign items) host := by
  have clears : Sure clear host fun _ left => left.pool = host.pool ∧
      Drawing own 0 capacity left ∧ left.container.capacity = host.container.capacity :=
    ⟨rfl, ⟨by simp [Storage.size], drawing.heap⟩, rfl⟩
  refine seeks_after (clears.weaken fun _ left facts => ⟨facts.1, ?_⟩)
  obtain ⟨-, drawing', same⟩ := facts
  have like : room host.container items.length = room left.container items.length := by
    unfold room capacityFor
    rw [same]
  have makes : left.container.capacity < items.length →
      Grows α own [⟨items.length, left.container.capacityFor items.length⟩]
        (Storage.reallocateDiscarding (left.container.capacityFor items.length)) left
        (Drawing own 0 (left.container.capacityFor items.length)) := by
    intro lacking
    have more := Nat.lt_of_lt_of_le lacking (le_capacityFor items.length left.container)
    rw [drawing'.capacity_eq] at more
    exact reallocateDiscarding_grows drawing' ⟨items.length, _⟩ (capacityFor_le _ le) more
  rw [like]
  apply current_then
  exact seeks_room makes fun _ => rfl

theorem eraseRange_seeks (start stop : Nat) : Seeks own [] (eraseRange start stop) host := by
  unfold eraseRange
  apply current_then
  split
  · exact seeks_idle rfl
  · exact seeks_require rfl (fun _ => rfl) fun _ => seeks_idle rfl

end Commands

/-- The capacities that a command moves a vector to, one after the other. -/
def Command.moves {α : Type} (v : Vector α) : Command α → List Move
  | .push _ | .tryPush _ | .pushDefault => growth v.size v.capacity
  | .insert position _ | .tryInsert position _ => if position ≤ v.size then growth v.size v.capacity else []
  | .insertMany position n _ | .tryInsertMany position n _ => if position ≤ v.size then room v (v.size + n) else []
  | .resize size | .resizeWith size _ => room v size
  | .reserve capacity | .tryReserve capacity => if v.capacity < capacity then [⟨capacity, capacity⟩] else []
  | .setCapacity capacity => [⟨capacity, capacity⟩]
  | .assign items | .tryAssign items => room v items.length
  | .extend items => extension v items.length items.length
  | .extendHinted items promised => extension v items.length promised
  | _ => []

section Perform
variable {α : Type} [Stored α] [BEq α] [Inhabited α] [Shown α] {own : AllocatorId} {host : Host (Vector α)}
  {size capacity : Nat} {command : Command α}

theorem perform_seeks (drawing : Drawing own size capacity host) (countable : host.container.Countable)
    (computes : command.Computes) : Seeks own (command.moves host.container) command.perform host := by
  have fits := countable.fits
  have le : capacity ≤ maxCount := drawing.capacity_eq ▸ countable.capacity_le
  have pushes := fun x => tryPush_grows drawing x
  have insertsMany := fun position n x => tryInsertMany_seeks drawing fits le position n x
  have inserts := fun position x => tryInsert_seeks drawing position x
  rw [← drawing.size_eq, ← drawing.capacity_eq] at pushes
  cases command with
  | push x => exact seeks_reply (grows_orAbort (pushes x)).seeks _
  | tryPush x => exact seeks_reply (pushes x).seeks _
  | pushDefault => exact seeks_reply (grows_orAbort (pushes default)).seeks _
  | insert position x => exact seeks_map _ (seeks_orAbort (inserts position x))
  | tryInsert position x => exact seeks_map _ (inserts position x)
  | insertMany position n x => exact seeks_map _ (seeks_orAbort (insertsMany position n x))
  | tryInsertMany position n x => exact seeks_map _ (insertsMany position n x)
  | eraseRange start stop => exact seeks_map _ (eraseRange_seeks start stop)
  | truncate size => exact seeks_idle rfl
  | clear => exact seeks_idle rfl
  | resize size => exact seeks_reply (resize_seeks drawing fits computes) _
  | resizeWith size x => exact seeks_reply (resizeWith_seeks drawing fits le size x) _
  | reserve capacity => exact seeks_reply (seeks_orAbort (tryReserve_seeks drawing computes)) _
  | tryReserve capacity => exact seeks_reply (tryReserve_seeks drawing computes) _
  | setCapacity capacity =>
    exact seeks_reply (grows_orAbort (reallocate_grows drawing ⟨capacity, capacity⟩ computes)).seeks _
  | assign items => exact seeks_reply (seeks_orAbort (tryAssign_seeks drawing computes)) _
  | tryAssign items => exact seeks_reply (tryAssign_seeks drawing computes) _
  | extend items => exact seeks_reply (extendHinted_grows drawing fits items items.length).seeks _
  | extendHinted items promised => exact seeks_reply (extendHinted_grows drawing fits items promised).seeks _
  | _ => exact computes.elim

end Perform

section Bounds
variable {α : Type} {v : Vector α} {size capacity needed : Nat} {move : Move}

/-- The capacity is at least the length that it was computed for, and it can be counted. -/
def Move.Counted (move : Move) : Prop :=
  move.needed ≤ move.capacity ∧ move.capacity ≤ maxCount

theorem counted_if {moves : List Move} {condition : Prop} [Decidable condition]
    (counted : condition → ∀ move ∈ moves, move.Counted) :
    ∀ move ∈ (if condition then moves else []), move.Counted := by
  split
  · exact counted ‹_›
  · exact List.forall_mem_nil _

theorem growth_counted (few : size = capacity → size < 2 ^ 63) : ∀ move ∈ growth size capacity, move.Counted := by
  refine counted_if fun full => List.forall_mem_singleton.mpr ?_
  have few := few full
  unfold Move.Counted doubled initialCapacity maxCount
  dsimp only
  split <;> omega

/-- An element is pushed to a place that can be counted twice over, or where there is room. -/
theorem pushMoves_counted (count : Nat) (few : size + count ≤ max (2 ^ 63) capacity) :
    ∀ move ∈ pushMoves count size capacity, move.Counted := by
  induction count generalizing size capacity with
  | zero => exact List.forall_mem_nil _
  | succ count ih =>
    have wider : capacity ≤ grown size capacity := by
      unfold grown
      split
      · exact Nat.le_of_lt (lt_doubled capacity)
      · exact Nat.le_refl capacity
    exact List.forall_mem_append.mpr ⟨growth_counted (by omega), ih (by omega)⟩

theorem room_counted (le : needed ≤ maxCount) : ∀ move ∈ room v needed, move.Counted :=
  counted_if fun _ => List.forall_mem_singleton.mpr ⟨le_capacityFor needed v, capacityFor_le v le⟩

theorem extension_counted {count promised : Nat}
    (few : v.size + count ≤ max (2 ^ 63) (roomy v (min (v.size + promised) maxCount))) :
    ∀ move ∈ extension v count promised, move.Counted :=
  List.forall_mem_append.mpr ⟨room_counted (Nat.min_le_right ..), pushMoves_counted count few⟩

/-- A single element is not pushed or inserted where there are 2⁶³ elements, unless there is room
that was made for it in advance. -/
def Command.Few (v : Vector α) : Command α → Prop
  | .push _ | .tryPush _ | .pushDefault | .insert _ _ | .tryInsert _ _ => v.size < 2 ^ 63
  | .extend items => v.size + items.length ≤ max (2 ^ 63) (roomy v (min (v.size + items.length) maxCount))
  | .extendHinted items promised => v.size + items.length ≤ max (2 ^ 63) (roomy v (min (v.size + promised) maxCount))
  | _ => True

/-- So many copies are inserted that the length cannot be counted. -/
def Command.Uncountable (v : Vector α) : Command α → Prop
  | .insertMany position n _ | .tryInsertMany position n _ => position ≤ v.size ∧ maxCount < v.size + n
  | _ => False

variable {command : Command α}

theorem moves_counted (computes : command.Computes) (few : command.Few v) (countable : ¬ command.Uncountable v) :
    ∀ move ∈ command.moves v, move.Counted := by
  have exactly : ∀ {wanted : Nat}, wanted ≤ maxCount → ∀ move ∈ [(⟨wanted, wanted⟩ : Move)], move.Counted :=
    fun le => List.forall_mem_singleton.mpr ⟨Nat.le_refl _, le⟩
  cases command with
  | push _ | tryPush _ | pushDefault => exact growth_counted fun _ => few
  | insert position _ | tryInsert position _ => exact counted_if fun _ => growth_counted fun _ => few
  | insertMany position n _ | tryInsertMany position n _ =>
    exact counted_if fun within => room_counted (Nat.not_lt.mp fun large => countable ⟨within, large⟩)
  | resize size | resizeWith size _ => exact room_counted computes
  | reserve wanted | tryReserve wanted => exact counted_if fun _ => exactly computes
  | setCapacity wanted => exact exactly computes
  | assign items | tryAssign items => exact room_counted computes
  | extend items | extendHinted items promised => exact extension_counted few
  | _ => exact List.forall_mem_nil _

/-- Where the length cannot be counted, neither can the capacity for it. -/
theorem moves_of_uncountable (countable : v.Countable) (uncountable : command.Uncountable v) :
    ∃ move, command.moves v = [move] ∧ move.needed ≤ move.capacity ∧ maxCount < move.capacity := by
  have single : ∀ position n, position ≤ v.size ∧ maxCount < v.size + n →
      ∃ move, (if position ≤ v.size then room v (v.size + n) else []) = [move] ∧ move.needed ≤ move.capacity ∧
        maxCount < move.capacity := by
    rintro position n ⟨within, large⟩
    have beyond := le_capacityFor (v.size + n) v
    refine ⟨⟨v.size + n, v.capacityFor (v.size + n)⟩, ?_, beyond, Nat.lt_of_lt_of_le large beyond⟩
    rw [if_pos within, room, if_pos (Nat.lt_of_le_of_lt countable.capacity_le large)]
  cases command with
  | insertMany position n _ | tryInsertMany position n _ => exact single position n uncountable
  | _ => exact uncountable.elim

end Bounds

section Arithmetic
variable {α : Type} [Stored α] [BEq α] [Inhabited α] [Shown α]

/-- A vector whose slots can be counted computes with numbers of a machine word only. On the heap
it moves to the capacities of a command one after the other. Each of them is at least the length
that it was computed for, and it can be counted unless too many copies are inserted. Where it is
too large, the command panics and asks for nothing any more; otherwise it asks for exactly so many
slots. -/
theorem capacity_arithmetic {host : Host (Vector α)} (countable : host.container.Countable) {command : Command α}
    (computes : command.Computes) :
    Exact command.counted command.perform host ∧
    ∀ own capacity address, host.container.engine = .heap own capacity address → command.Few host.container →
      let step := command.perform.step host
      let moves := command.moves host.container
      (∃ asked, Carried α moves asked step.shortage? ∧ host.pool.Asked own asked step.after.pool) ∧
      (∀ move ∈ moves, move.needed ≤ move.capacity ∧
        (maxCount < move.capacity ↔ command.Uncountable host.container)) ∧
      (moves.length ≤ 1 → (step.outcome = .error (.panicked .capacityOverflow) ↔
        command.Uncountable host.container ∨ ∃ move ∈ moves, maxBytes < move.capacity * elementSize α)) := by
  refine ⟨command.counted_exact countable computes, fun own capacity address heap few => ?_⟩
  have drawing : Drawing own host.container.size capacity host := ⟨rfl, address, heap⟩
  have sought : Sought α own (command.moves host.container) host.pool (command.perform.step host).shortage?
      (command.perform.step host).after.pool :=
    (leads_iff_step command.perform fun outcome after =>
      Sought α own (command.moves host.container) host.pool (Step.mk outcome after).shortage? after.pool).mp
        (perform_seeks drawing countable computes)
  obtain ⟨asked, carried, between⟩ := sought
  have bounds : ∀ move ∈ command.moves host.container, move.needed ≤ move.capacity ∧
      (maxCount < move.capacity ↔ command.Uncountable host.container) := by
    by_cases uncountable : command.Uncountable host.container
    · obtain ⟨single, only, enough, large⟩ := moves_of_uncountable countable uncountable
      rw [only]
      exact List.forall_mem_singleton.mpr ⟨enough, iff_of_true large uncountable⟩
    · intro move member
      obtain ⟨enough, le⟩ := moves_counted computes few uncountable move member
      exact ⟨enough, iff_of_false (Nat.not_lt.mpr le) uncountable⟩
  refine ⟨⟨asked, carried, between⟩, bounds, fun most => ?_⟩
  rw [← Step.shortage?_eq_overflow, carried.overflow_iff most]
  constructor
  · rintro ⟨move, member, beyond | large⟩
    · exact .inl ((bounds move member).2.mp beyond)
    · exact .inr ⟨move, member, large⟩
  · rintro (uncountable | ⟨move, member, large⟩)
    · obtain ⟨single, only, -, beyond⟩ := moves_of_uncountable countable uncountable
      exact ⟨single, only ▸ List.mem_singleton_self single, .inl beyond⟩
    · exact ⟨move, member, .inr large⟩

end Arithmetic

/-- Eight bytes for each of 2⁶⁰ numbers are more than one buffer spans. -/
theorem capacity_arithmetic_reserve :
    Countable (⟨.heap .a 16 0, #[5]⟩ : Vector Int64) ∧
    ((Command.tryReserve (2 ^ 60) : Command Int64).perform.step
      ⟨⟨.heap .a 16 0, #[5]⟩, ⟨⟨.unlimited, 0, []⟩, ⟨.unlimited, 0, []⟩⟩⟩).outcome =
        .error (.panicked .capacityOverflow) := by
  let host : Host (Vector Int64) := ⟨⟨.heap .a 16 0, #[5]⟩, ⟨⟨.unlimited, 0, []⟩, ⟨.unlimited, 0, []⟩⟩⟩
  have countable : Countable host.container := ⟨by decide, by decide⟩
  have computes : (Command.tryReserve (2 ^ 60) : Command Int64).Computes := show 2 ^ 60 ≤ maxCount by decide
  obtain ⟨-, -, panics⟩ := (capacity_arithmetic countable computes).2 .a 16 0 rfl trivial
  have large : maxBytes < 2 ^ 60 * elementSize Int64 := by decide
  exact ⟨countable, (panics (by decide)).mpr (.inr ⟨⟨2 ^ 60, 2 ^ 60⟩, List.mem_singleton_self _, large⟩)⟩

/-- A place behind the end is reported before the copies are counted. And where elements are
pushed that were not announced, an earlier capacity may have been asked for before one that is
too large. -/
theorem overflow_not_first :
    (maxCount < 1 + maxCount ∧
      ((Command.insertMany 5 maxCount 7 : Command Int64).perform.step
        ⟨⟨.heap .a 16 0, #[1]⟩, ⟨⟨.unlimited, 0, []⟩, ⟨.unlimited, 0, []⟩⟩⟩).outcome =
          .error (.panicked (.insertIndex 5 1))) ∧
    (letI : Stored Unit := ⟨⟨2 ^ 58, 1, by decide⟩⟩
      let step := (Command.extendHinted (List.replicate 17 ()) 0 : Command Unit).perform.step
        ⟨⟨.heap .a 0 0, #[]⟩, ⟨⟨.unlimited, 0, []⟩, ⟨.unlimited, 0, []⟩⟩⟩
      step.outcome = .error (.panicked .capacityOverflow) ∧
        step.after.pool.a.history.requests = [⟨2 ^ 62, 1, by decide⟩]) := by
  refine ⟨⟨by decide, rfl⟩, ?_⟩
  exact ⟨(Step.shortage?_eq_overflow _).mp (by decide +kernel), by decide +kernel⟩

end Containers.Vector
