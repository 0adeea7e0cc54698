import Containers.Proofs.ManagedVectors
import Containers.Proofs.Pacing
import Containers.Proofs.VectorRuns

/-! Vectors and sorted maps on a storage of one capacity, beside the same ones on the
heap. No operation but those that name a capacity reads it into what it answers or
leaves, and none asks for room that what it leaves does not need. -/
namespace Containers

/-- The same elements in another buffer. -/
def Storage.onto (engine : Engine) (storage : Storage α) : Storage α :=
  { storage with engine }

section Reasons
variable {α : Type} [Stored α] {room : Nat} {fault : Fault}

theorem Storage.Denied.ungranted {host : Host (Storage α)} {count : Nat} (denied : Denied host count fault) :
    fault.Ungranted := by
  cases denied with
  | @fixed capacity _ => exact .cramped (.fixed count capacity)
  | overflow _ _ => exact .cramped .overflow
  | refused _ _ _ => exact .refused _

/-- Slots that are not on the heap are denied by a panic. -/
theorem Storage.Denied.cramped {host : Host (Storage α)} {count : Nat} (denied : Denied host count fault)
    (inline : host.container.engine = .inline room) : fault.Cramped := by
  cases denied with
  | @fixed capacity _ => exact .fixed count capacity
  | overflow heap _ =>
    rw [inline] at heap
    cases heap
  | refused heap _ _ =>
    rw [inline] at heap
    cases heap

namespace Vector
variable {host : Host (Vector α)} {given : List α} {promised : Nat} {after : Host (Vector α)}

theorem Stuck.ungranted (stuck : Stuck host fault) : fault.Ungranted := by
  cases stuck with
  | overflow _ _ => exact .cramped .overflow
  | denied _ denied => exact denied.ungranted

theorem Stuck.full (stuck : Stuck host fault) : host.container.size = host.container.capacity := by
  cases stuck with
  | overflow full _ => exact full
  | denied full _ => exact full

theorem Stuck.cramped (stuck : Stuck host fault) (inline : host.container.engine = .inline room) : fault.Cramped := by
  cases stuck with
  | overflow _ _ => exact .overflow
  | denied _ denied => exact denied.cramped inline

/-- Where elements cannot all be appended to slots that stay, they do not fit there. -/
theorem Stalled.lacks {items : List α} (stalled : Stalled host given given.length fault after)
    (holds : Holds host.container items) (inline : host.container.engine = .inline room) :
    room < items.length + given.length ∧ fault.Cramped := by
  cases stalled with
  | announced crowded =>
    have lacking := crowded.2.lacking
    rw [Storage.capacity, inline, holds.length] at lacking
    exact ⟨Nat.lt_of_lt_of_le lacking (Nat.min_le_left ..), crowded.2.denied.cramped inline⟩
  | midway count short reached kept stuck =>
    have met := extendHinted_meets holds (given.take count) given.length
    have stays : Leads (extendHinted (given.take count) given.length) host
        (fun _ after => after.container.engine = .inline room) fun _ after => after.container.engine = .inline room :=
      (managed_extendHinted _ _).inline inline
    rw [Meets, Leads, reached] at met
    rw [Leads, reached] at stays
    obtain ⟨_, ⟨⟩, holds'⟩ := met
    have full := stuck.full
    have capacity : Storage.capacity _ = room := congrArg Engine.capacity stays
    rw [holds'.length, List.length_append, List.length_take, capacity] at full
    exact ⟨by omega, stuck.cramped stays⟩

theorem Stalled.ungranted (stalled : Stalled host given promised fault after) : fault.Ungranted := by
  cases stalled with
  | announced crowded => exact crowded.2.denied.ungranted
  | midway _ _ _ _ stuck => exact stuck.ungranted

end Vector

end Reasons

namespace Vector

section Bounded
variable {α β : Type} {room : Nat} {free fixed : Host (Vector α)}

/-- Both vectors hold the same elements, the first on the heap or wherever it has room
for them, the second in so many slots for ever. -/
structure Level (room : Nat) (free fixed : Host (Vector α)) : Prop where
  same : fixed.container = free.container.onto (.inline room)
  fits : free.container.Fits
  room : free.container.size ≤ room

theorem Level.free_holds (level : Level room free fixed) : Holds free.container free.container.items.toList :=
  ⟨rfl, level.fits⟩

theorem Level.fixed_holds (level : Level room free fixed) : Holds fixed.container free.container.items.toList := by
  rw [level.same]
  exact ⟨rfl, level.room⟩

theorem Level.inline (level : Level room free fixed) : fixed.container.engine = .inline room := by
  rw [level.same]
  rfl

theorem level_of_holds {items : List α} (holds : Holds free.container items) (holds' : Holds fixed.container items)
    (inline : fixed.container.engine = .inline room) : Level room free fixed := by
  have within := holds'.room
  rw [Storage.capacity, inline, ← holds.length] at within
  refine ⟨?_, holds.fits, within⟩
  rw [Storage.onto, ← inline, holds.toArray, ← holds'.toArray]

theorem paces_pure (level : Level room free fixed) (answer : β) :
    Paces (·.size ≤ room) (Level room) (pure answer) free fixed :=
  (twinned_pure answer).paces level level.room

theorem paces_throw (level : Level room free fixed) (fault : Fault) :
    Paces (·.size ≤ room) (Level room) (throw fault : Op (Vector α) β) free fixed :=
  (twinned_throw fault).paces level level.room

/-- What both vectors hold is read alike, and so is what follows from it. -/
theorem paces_holding (level : Level room free fixed) {next : Vector α → Op (Vector α) β}
    (same : ∀ v : Vector α, next (v.onto (.inline room)) = next v)
    (rest : Paces (·.size ≤ room) (Level room) (next free.container) free fixed) :
    Paces (·.size ≤ room) (Level room) (Op.current >>= next) free fixed :=
  paces_reading (level.same ▸ same free.container) rest

variable [Stored α]

/-- An operation that does to both vectors what it does to a list, and is hindered on the
fixed one only if the list that is left does not fit there. -/
theorem paces_of_meets {op : Op (Vector α) β} {expected : Except Fault (List α × β)}
    {ungranted ungranted' : Fault → Host (Vector α) → Prop} (managed : Managed op) (level : Level room free fixed)
    (meets : Meets op free expected ungranted) (meets' : Meets op fixed expected ungranted')
    (excuses : ∀ fault after, ungranted fault after → fault.Ungranted)
    (lacks : ∀ left answer fault after, expected = .ok (left, answer) → ungranted' fault after →
      room < left.length ∧ fault.Cramped) :
    Paces (·.size ≤ room) (Level room) op free fixed := by
  have inline : Leads op fixed (fun _ after => after.container.engine = .inline room)
      fun _ after => after.container.engine = .inline room := managed.inline level.inline
  rw [paces_iff_leads]
  refine meets.mono ?_ ?_
  · rintro answer after ⟨left, rfl, holds⟩
    rw [holds.length]
    simp only [Meets, Leads] at meets' inline
    cases ran : op fixed with
    | ok answer' after' =>
      rw [ran] at meets' inline
      obtain ⟨_, ⟨⟩, holds'⟩ := meets'
      have level' : Level room after after' := level_of_holds holds holds' inline
      exact ⟨fun _ => ⟨after', rfl, level'⟩, fun beyond => absurd (holds.length ▸ level'.room) beyond⟩
    | error fault after' =>
      rw [ran] at meets'
      obtain ⟨⟨⟩, -⟩ | ⟨-, reason⟩ := meets'
      obtain ⟨beyond, cramped⟩ := lacks left answer fault after' rfl reason
      exact ⟨fun within => absurd within (Nat.not_le.mpr beyond), fun _ => ⟨fault, after', rfl, cramped⟩⟩
  · rintro fault after (⟨rfl, rfl⟩ | ⟨-, reason⟩)
    · refine .inr ⟨fun _ => ?_, fun beyond => absurd level.room beyond⟩
      simp only [Meets, Leads] at meets'
      cases ran : op fixed with
      | ok answer' after' =>
        rw [ran] at meets'
        obtain ⟨_, ⟨⟩, -⟩ := meets'
      | error fault' after' =>
        rw [ran] at meets'
        obtain ⟨⟨⟩, rfl⟩ | ⟨⟨_, ⟨⟩⟩, -⟩ := meets'
        exact ⟨_, rfl, level⟩
    · exact .inl (excuses fault after reason)

/-- An operation that asks for no room. -/
theorem paces_of_granted {op : Op (Vector α) β} {expected : Except Fault (List α × β)} (managed : Managed op)
    (level : Level room free fixed) (meets : Meets op free expected fun _ _ => False)
    (meets' : Meets op fixed expected fun _ _ => False) : Paces (·.size ≤ room) (Level room) op free fixed :=
  paces_of_meets managed level meets meets' (fun _ _ impossible => impossible.elim)
    fun _ _ _ _ _ impossible => impossible.elim

/-- Wherever the elements lie in the vector without a bound, the other has room for one
more exactly if it is not full. -/
theorem tryPush_paces (moved : Moved (Storage.onto (.inline room)) free fixed) (within : free.container.size ≤ room)
    (x : α) : Paces (·.size ≤ room) (Moved (Storage.onto (.inline room))) (tryPush x) free fixed := by
  obtain ⟨container, pool⟩ := fixed
  obtain rfl : container = free.container.onto (.inline room) := moved
  have pushes := (tryPush_leads ⟨free.container.onto (.inline room), pool⟩ x).and ((managed_tryPush x).inline rfl)
  rw [paces_iff_leads]
  refine (tryPush_leads free x).mono ?_ fun fault after failed => .inl failed.2.ungranted
  rintro _ after ⟨pushed, -⟩
  have size : after.container.size = free.container.size + 1 := by
    rw [Storage.size, pushed, Array.size_push]
    rfl
  rw [size]
  rw [Leads] at pushes
  split at pushes
  · rename_i after' ran
    obtain ⟨⟨pushed', fits⟩, inline⟩ := pushes
    obtain ⟨⟨engine, items⟩, pool'⟩ := after'
    obtain rfl : engine = .inline room := inline
    obtain rfl : items = free.container.items.push x := pushed'
    have more := fits within
    rw [Storage.Fits, Storage.size, Array.size_push] at more
    refine ⟨fun _ => ⟨_, ran, ?_⟩, fun beyond => absurd more beyond⟩
    rw [← pushed]
    exact rfl
  · rename_i fault after' ran
    obtain ⟨⟨-, stuck⟩, -⟩ := pushes
    have full : free.container.size = room := stuck.full
    exact ⟨fun more => absurd more (by omega), fun _ => ⟨fault, after', ran, stuck.cramped rfl⟩⟩

end Bounded

section Replies
variable {α β : Type} {left : List α}

/-- The commands that neither name a capacity nor put another vector in place. -/
def Command.Portable : Command α → Prop
  | .reserve _ | .tryReserve _ | .setCapacity _ | .extendHinted _ _ | .clone | .becomeClone | .renew | .overStorage
  | .renewSized _ | .renewFrom _ | .collect _ | .allocator | .setAllocator _ => False
  | _ => True

/-- The reply tells nothing of where the elements lie. -/
def Reply.Plain : Reply α → Prop
  | .copy _ _ | .allocator _ => False
  | _ => True

theorem Reply.Plain.shown_eq {reply : Reply α} (plain : (Reference.shown reply).Plain) :
    Reference.shown reply = reply := by
  cases reply with
  | copy made equal => exact plain.elim
  | allocator id => exact plain.elim
  | _ => rfl

theorem Reference.replying_plain {reply : β → Reply α} {edited : Except Fault (List α × β)} {shown : Reply α}
    (replies : replying reply edited = .ok (left, shown)) (plain : ∀ answer, (reply answer).Plain) : shown.Plain := by
  cases edited with
  | error fault => cases replies
  | ok result =>
    cases replies
    exact plain result.2

theorem Reference.of_replying {reply : β → Reply α} {edited : Except Fault (List α × β)} {shown : Reply α}
    (replies : replying reply edited = .ok (left, shown)) : ∃ answer, edited = .ok (left, answer) := by
  cases edited with
  | error fault => cases replies
  | ok result =>
    cases replies
    exact ⟨result.2, rfl⟩

theorem Reference.length_insert {items : List α} {position : Nat} {x : α}
    (edits : ∃ answer, insert items position x = .ok (left, answer)) : left.length = items.length + 1 := by
  obtain ⟨answer, edited⟩ := edits
  unfold insert at edited
  split at edited
  · cases edited
    simp only [List.length_append, List.length_take, List.length_cons, List.length_drop]
    omega
  · cases edited

theorem Reference.length_insertMany {items : List α} {position n : Nat} {x : α}
    (edits : ∃ answer, insertMany items position n x = .ok (left, answer)) : left.length = items.length + n := by
  obtain ⟨answer, edited⟩ := edits
  unfold insertMany at edited
  split at edited
  · split at edited
    · cases edited
      simp only [List.length_append, List.length_take, List.length_replicate, List.length_drop]
      omega
    · cases edited
  · cases edited

theorem Reference.length_resize (items : List α) (size : Nat) (x : α) : (resize items size x).length = size := by
  rw [resize, List.length_append, List.length_take, List.length_replicate]
  omega

theorem Reference.apply_plain [BEq α] [Inhabited α] [Shown α] {items : List α} {command : Command α} {reply : Reply α}
    (portable : command.Portable) (applies : apply items command = .ok (left, reply)) : reply.Plain := by
  cases command with
  | insert _ _ | tryInsert _ _ | insertMany _ _ _ | tryInsertMany _ _ _ | remove _ | erase _ | eraseRange _ _
  | swapErase _ | resizeWith _ _ | get _ | front | back | item _ | set _ _ | setFront _ | setBack _ | setItem _ _ =>
    simp only [apply] at applies
    exact replying_plain applies fun _ => trivial
  | findFrom x start =>
    simp only [apply] at applies
    split at applies
    · cases applies
      trivial
    · cases applies
  | reserve _ | tryReserve _ | setCapacity _ | extendHinted _ _ | clone | becomeClone | renew | overStorage
  | renewSized _ | renewFrom _ | collect _ | allocator | setAllocator _ => exact portable.elim
  | _ =>
    cases applies
    trivial

end Replies

section Commands
variable {α : Type} [Stored α] [BEq α] [Inhabited α] [Shown α] {room : Nat} {host : Host (Vector α)} {items : List α}
  {command : Command α}

/-- A command that tells nothing of where the elements lie answers exactly what the list answers. -/
theorem perform_meets (holds : Holds host.container items) (portable : command.Portable) :
    Meets command.perform host (Reference.apply items command) (Reference.Ungranted host command) := by
  refine (leads_iff_step command.perform fun outcome after => match outcome with
    | .ok answer => ∃ left, Reference.apply items command = .ok (left, answer) ∧ Holds after.container left
    | .error fault => Reference.apply items command = .error fault ∧ after = host ∨
        (∃ result, Reference.apply items command = .ok result) ∧ Reference.Ungranted host command fault after).mpr ?_
  have agrees := perform_agrees holds command
  generalize command.perform.step host = step at agrees ⊢
  cases agrees with
  | broken breaks => exact .inl ⟨breaks, rfl⟩
  | answered applies holds' =>
    rw [(Reference.apply_plain portable applies).shown_eq] at applies
    exact ⟨_, applies, holds'⟩
  | ungranted applies ungranted => exact .inr ⟨⟨_, applies⟩, ungranted⟩

omit [BEq α] [Inhabited α] [Shown α] in
theorem Reference.Ungranted.excuses {fault : Fault} {after : Host (Vector α)} (portable : command.Portable)
    (ungranted : Ungranted host command fault after) : fault.Ungranted := by
  cases command with
  | push _ | pushDefault | insert _ _ =>
    obtain ⟨cause, rfl, -, stuck⟩ := ungranted
    exact stuck.ungranted.abort
  | tryPush _ | tryInsert _ _ => exact ungranted.2.ungranted
  | insertMany _ _ _ | resize _ | resizeWith _ _ | assign _ =>
    obtain ⟨cause, rfl, -, noRoom⟩ := ungranted
    exact noRoom.denied.ungranted.abort
  | tryInsertMany _ _ _ | tryAssign _ => exact ungranted.2.denied.ungranted
  | extend _ =>
    obtain ⟨cause, rfl, stalled⟩ := ungranted
    exact stalled.ungranted.abort
  | reserve _ | tryReserve _ | setCapacity _ | extendHinted _ _ | clone | becomeClone | renew | overStorage
  | renewSized _ | renewFrom _ | collect _ | allocator | setAllocator _ => exact portable.elim
  | _ => exact ungranted.elim

/-- On a storage of one capacity growth is not granted exactly to what does not fit there. -/
theorem Reference.Ungranted.lacks {left : List α} {reply : Reply α} {fault : Fault} {after : Host (Vector α)}
    (holds : Holds host.container items) (inline : host.container.engine = .inline room) (portable : command.Portable)
    (applies : apply items command = .ok (left, reply)) (ungranted : Ungranted host command fault after) :
    room < left.length ∧ fault.Cramped := by
  have capacity : host.container.capacity = room := congrArg Engine.capacity inline
  have unpushed : ∀ {cause}, Stuck host cause → room = items.length ∧ cause.Cramped := fun stuck =>
    ⟨by rw [← holds.length, stuck.full, capacity], stuck.cramped inline⟩
  have crowded : ∀ {needed cause}, NoRoom host needed cause → room < needed ∧ cause.Cramped := fun noRoom =>
    ⟨capacity ▸ noRoom.lacking, noRoom.denied.cramped inline⟩
  have aborting : ∀ {cause : Fault}, cause.Cramped → cause.abort.Cramped := by
    intro cause cramped
    rwa [cramped.abort_eq]
  cases command with
  | push _ | pushDefault =>
    cases applies
    obtain ⟨cause, rfl, -, stuck⟩ := ungranted
    obtain ⟨full, cramped⟩ := unpushed stuck
    exact ⟨by simp [full], aborting cramped⟩
  | tryPush _ =>
    cases applies
    obtain ⟨full, cramped⟩ := unpushed ungranted.2
    exact ⟨by simp [full], cramped⟩
  | insert _ _ =>
    obtain ⟨cause, rfl, -, stuck⟩ := ungranted
    obtain ⟨full, cramped⟩ := unpushed stuck
    simp only [apply] at applies
    rw [length_insert (of_replying applies)]
    exact ⟨by omega, aborting cramped⟩
  | tryInsert _ _ =>
    obtain ⟨full, cramped⟩ := unpushed ungranted.2
    simp only [apply] at applies
    rw [length_insert (of_replying applies)]
    exact ⟨by omega, cramped⟩
  | insertMany _ _ _ =>
    obtain ⟨cause, rfl, -, noRoom⟩ := ungranted
    obtain ⟨beyond, cramped⟩ := crowded noRoom
    rw [length_insertMany (of_replying applies)]
    exact ⟨by rwa [holds.length] at beyond, aborting cramped⟩
  | tryInsertMany _ _ _ =>
    obtain ⟨beyond, cramped⟩ := crowded ungranted.2
    rw [length_insertMany (of_replying applies)]
    exact ⟨by rwa [holds.length] at beyond, cramped⟩
  | resize size =>
    cases applies
    obtain ⟨cause, rfl, -, noRoom⟩ := ungranted
    obtain ⟨beyond, cramped⟩ := crowded noRoom
    exact ⟨by rwa [length_resize], aborting cramped⟩
  | resizeWith size x =>
    obtain ⟨cause, rfl, -, noRoom⟩ := ungranted
    obtain ⟨beyond, cramped⟩ := crowded noRoom
    simp only [apply, resizeWith] at applies
    split at applies
    · cases applies
      exact ⟨by rwa [length_resize], aborting cramped⟩
    · cases applies
  | assign given =>
    cases applies
    obtain ⟨cause, rfl, -, noRoom⟩ := ungranted
    obtain ⟨beyond, cramped⟩ := crowded noRoom
    exact ⟨beyond, aborting cramped⟩
  | tryAssign given =>
    cases applies
    exact crowded ungranted.2
  | extend given =>
    cases applies
    obtain ⟨cause, rfl, stalled⟩ := ungranted
    obtain ⟨beyond, cramped⟩ := stalled.lacks holds inline
    exact ⟨by rwa [List.length_append], aborting cramped⟩
  | reserve _ | tryReserve _ | setCapacity _ | extendHinted _ _ | clone | becomeClone | renew | overStorage
  | renewSized _ | renewFrom _ | collect _ | allocator | setAllocator _ => exact portable.elim
  | _ => exact ungranted.elim

/-- Every command that names no capacity keeps both vectors abreast. -/
theorem perform_paces {free fixed : Host (Vector α)} (portable : command.Portable) (level : Level room free fixed) :
    Paces (·.size ≤ room) (Level room) command.perform free fixed :=
  paces_of_meets (managed_perform command) level (perform_meets level.free_holds portable)
    (perform_meets level.fixed_holds portable) (fun _ _ ungranted => ungranted.excuses portable)
    fun _ _ _ _ applies ungranted => ungranted.lacks level.fixed_holds level.inline portable applies

end Commands

section Edits
variable {α : Type} [Stored α] {room : Nat} {free fixed : Host (Vector α)} (level : Level room free fixed)
include level

theorem tryInsert_paces (position : Nat) (x : α) :
    Paces (·.size ≤ room) (Level room) (tryInsert position x) free fixed := by
  refine paces_of_meets (managed_tryInsert position x) level (tryInsert_meets level.free_holds position x)
    (tryInsert_meets level.fixed_holds position x) (fun _ _ unpushed => unpushed.2.ungranted) ?_
  rintro left answer fault after inserts ⟨-, stuck⟩
  have full := stuck.full
  rw [level.fixed_holds.length, Storage.capacity, level.inline] at full
  rw [Reference.length_insert ⟨answer, inserts⟩, full]
  exact ⟨Nat.lt_succ_self room, stuck.cramped level.inline⟩

theorem remove_paces (position : Nat) : Paces (·.size ≤ room) (Level room) (remove position) free fixed :=
  paces_of_granted (managed_remove position) level (remove_meets level.free_holds position)
    (remove_meets level.fixed_holds position)

theorem erase_paces (position : Nat) : Paces (·.size ≤ room) (Level room) (erase position) free fixed :=
  paces_of_granted (managed_erase position) level (erase_meets level.free_holds position)
    (erase_meets level.fixed_holds position)

theorem eraseRange_paces (start stop : Nat) : Paces (·.size ≤ room) (Level room) (eraseRange start stop) free fixed :=
  paces_of_granted (managed_eraseRange start stop) level (eraseRange_meets level.free_holds start stop)
    (eraseRange_meets level.fixed_holds start stop)

theorem clear_paces : Paces (·.size ≤ room) (Level room) clear free fixed :=
  paces_of_granted (managed_truncate 0) level (truncate_meets level.free_holds 0) (truncate_meets level.fixed_holds 0)

end Edits

end Vector

section Flat
variable {κ ν : Type} [Ord κ] [Stored κ] [Stored ν] {room : Nat}

namespace FlatMap
variable {free fixed : Host (FlatMap κ ν)}

/-- The commands that do not put another map in place. -/
def Command.Portable : Command κ ν → Prop
  | .renewFrom _ => False
  | _ => True

/-- A key is looked up before room is asked for. -/
theorem tryInsert_paces [BEq κ] (level : Vector.Level room free fixed) (k : κ) (value : ν) :
    Paces (·.size ≤ room) (Vector.Level room) (tryInsert k value) free fixed := by
  unfold tryInsert
  apply Vector.paces_holding level (fun _ => rfl)
  dsimp only
  split
  · exact Vector.paces_pure level _
  · exact paces_reply (fun _ => ⟨_, rfl⟩) (Vector.tryInsert_paces level _ _)

theorem setValue_paces (level : Vector.Level room free fixed) (k : κ) (value : ν) :
    Paces (·.size ≤ room) (Vector.Level room) (setValue k value) free fixed := by
  unfold setValue
  apply Vector.paces_holding level (fun _ => rfl)
  split
  · exact Vector.paces_pure level _
  · apply paces_reply (fun _ => ⟨_, rfl⟩)
    exact Vector.paces_of_granted (Storage.managed_rewrite _) level (Vector.modify_meets level.free_holds _ _)
      (Vector.modify_meets level.fixed_holds _ _)

theorem perform_paces [BEq κ] {command : Command κ ν} (portable : command.Portable)
    (level : Vector.Level room free fixed) :
    Paces (·.size ≤ room) (Vector.Level room) command.perform free fixed := by
  cases command with
  | insert k value => exact paces_reply (fun _ => ⟨_, rfl⟩) (paces_orAbort (tryInsert_paces level k value))
  | tryInsert k value => exact paces_reply (fun _ => ⟨_, rfl⟩) (tryInsert_paces level k value)
  | setValue k value => exact paces_map _ (setValue_paces level k value)
  | erase k =>
    refine paces_map _ (Vector.paces_holding level (fun _ => rfl) ?_)
    split
    · exact paces_reply (fun _ => ⟨_, rfl⟩) (Vector.erase_paces level _)
    · exact Vector.paces_pure level _
  | eraseAt position => exact paces_map _ (Vector.erase_paces level position)
  | remove k =>
    refine paces_map _ (Vector.paces_holding level (fun _ => rfl) ?_)
    split
    · exact paces_map _ (Vector.remove_paces level _)
    · exact Vector.paces_pure level _
  | clear => exact paces_reply (fun _ => ⟨_, rfl⟩) (Vector.clear_paces level)
  | renewFrom pairs => exact portable.elim
  | find _ | get _ | lowerBound _ | upperBound _ | isEmpty | iterate =>
    exact Vector.paces_holding level (fun _ => rfl) (Vector.paces_pure level _)

end FlatMap

namespace FlatMultiMap
variable [BEq ν] {free fixed : Host (FlatMultiMap κ ν)}

/-- The commands that do not put another multimap in place. -/
def Command.Portable : Command κ ν → Prop
  | .renewFrom _ => False
  | _ => True

omit [BEq ν] in
theorem tryInsert_paces (level : Vector.Level room free fixed) (k : κ) (value : ν) :
    Paces (·.size ≤ room) (Vector.Level room) (tryInsert k value) free fixed :=
  Vector.paces_holding level (fun _ => rfl) (Vector.tryInsert_paces level _ _)

theorem perform_paces {command : Command κ ν} (portable : command.Portable) (level : Vector.Level room free fixed) :
    Paces (·.size ≤ room) (Vector.Level room) command.perform free fixed := by
  cases command with
  | insert k value => exact paces_map _ (paces_orAbort (tryInsert_paces level k value))
  | tryInsert k value => exact paces_map _ (tryInsert_paces level k value)
  | findValue value start stop =>
    refine paces_map _ (Vector.paces_holding level (fun _ => rfl) ?_)
    split
    · exact Vector.paces_pure level _
    · exact Vector.paces_throw level _
  | erase k =>
    refine paces_map _ (Vector.paces_holding level (fun _ => rfl) ?_)
    exact paces_reply (fun _ => ⟨_, rfl⟩) (Vector.eraseRange_paces level _ _)
  | eraseAt position => exact paces_map _ (Vector.erase_paces level position)
  | clear => exact paces_reply (fun _ => ⟨_, rfl⟩) (Vector.clear_paces level)
  | renewFrom pairs => exact portable.elim
  | find _ | count _ | equalRange _ | getAll _ | lowerBound _ | upperBound _ | isEmpty | iterate =>
    exact Vector.paces_holding level (fun _ => rfl) (Vector.paces_pure level _)

end FlatMultiMap

end Flat

end Containers
