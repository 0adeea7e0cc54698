import Containers.Proofs.Copying
import Containers.Proofs.Managed
import Containers.Storage.Command
import Containers.Vector.Command
import Containers.Flat.Command

/-! The dealings of storages and of the containers that are storages are in order. -/
namespace Containers

namespace Storage
variable {α : Type} [Stored α]

theorem managed_rewrite (change : Array α → Array α) : Managed (rewrite change) :=
  managed_update fun _ => rfl

theorem managed_put (x : α) : Managed (put x) := by
  let step : EStateM Fault (Storage α) Bool := fun storage =>
    if storage.size < storage.capacity then .ok true { storage with items := storage.items.push x }
    else .ok false storage
  have steady : Steady step := by
    intro storage
    unfold Leads
    by_cases room : storage.size < storage.capacity
    · simp only [step, if_pos room]
      rfl
    · simp only [step, if_neg room]
  have same : put x = Op.alone step := by
    funext host
    unfold put Op.alone
    by_cases room : host.container.size < host.container.capacity
    · simp only [step, bind, EStateM.bind, Op.current, if_pos room]
      rfl
    · simp only [step, bind, EStateM.bind, Op.current, if_neg room]
      rfl
  rw [same]
  exact .alone steady

theorem managed_reset : Managed (reset : Op (Storage α) Unit) := by
  have vacates : (reset : Op (Storage α) Unit) =
      Op.vacate (fun _ => ()) fun storage => ⟨storage.engine.emptied, #[]⟩ := rfl
  rw [vacates]
  exact .vacate _ _ fun _ => .emptied

theorem managed_perform (command : Command α) : Managed command.perform := by
  cases command with
  | put x => exact managed_map _ (managed_put x)
  | reallocate count => exact .bind (.reallocate count) fun _ => managed_pure _
  | reallocateDiscarding count => exact .bind (.reallocateDiscarding count) fun _ => managed_pure _
  | reset => exact .bind managed_reset fun _ => managed_pure _
  | intoVector =>
    have vacates : (Command.intoVector : Command α).perform =
        Op.vacate (fun storage => .vector storage) fun storage => ⟨storage.engine.fresh, #[]⟩ := rfl
    rw [vacates]
    exact .vacate _ _ fun _ => .fresh
  | setAllocator id => exact .bind (.setAllocator id) fun _ => managed_pure _

theorem accounts_perform (command : Command α) : Accounts command.perform :=
  (managed_perform command).accounts

end Storage

namespace Vector
variable {α β σ : Type} [Stored α]

theorem managed_growIfFull : Managed (growIfFull : Op (Vector α) Unit) := by
  unfold growIfFull grow
  refine managed_reading fun v => ?_
  split
  · refine managed_reading fun v => ?_
    split
    · exact .reallocate _
    · exact .bind (managed_require _ _) fun _ => .reallocate _
  · exact managed_pure ()

theorem managed_tryPush (x : α) : Managed (tryPush x) :=
  .bind managed_growIfFull fun _ => Storage.managed_rewrite _

theorem managed_push (x : α) : Managed (push x) :=
  .orAbort (managed_tryPush x)

theorem managed_tryInsert (position : Nat) (x : α) : Managed (tryInsert position x) := by
  unfold tryInsert
  refine managed_reading fun v => ?_
  refine .bind (managed_require _ _) fun _ => ?_
  refine .bind managed_growIfFull fun _ => ?_
  exact .bind (Storage.managed_rewrite _) fun _ => managed_pure position

theorem managed_tryInsertMany (position n : Nat) (x : α) : Managed (tryInsertMany position n x) := by
  have finish : Managed (do
      Storage.rewrite fun slots => Slots.insert slots position n x
      return position : Op (Vector α) Nat) :=
    .bind (Storage.managed_rewrite _) fun _ => managed_pure position
  unfold tryInsertMany
  refine managed_reading fun v => ?_
  refine .bind (managed_require _ _) fun _ => ?_
  split
  · exact managed_pure position
  · refine .bind (managed_require _ _) fun _ => ?_
    split
    · exact .bind (.reallocate _) fun _ => finish
    · exact finish

theorem managed_insertMany (position n : Nat) (x : α) : Managed (insertMany position n x) :=
  .orAbort (managed_tryInsertMany position n x)

theorem managed_remove (position : Nat) : Managed (remove position : Op (Vector α) α) := by
  unfold remove
  refine managed_reading fun v => ?_
  split
  · exact managed_fail _
  · exact .bind (Storage.managed_rewrite _) fun _ => managed_pure _

theorem managed_erase (position : Nat) : Managed (erase position : Op (Vector α) Nat) :=
  .bind (managed_remove position) fun _ => managed_pure position

theorem managed_eraseRange (start stop : Nat) : Managed (eraseRange start stop : Op (Vector α) Nat) := by
  unfold eraseRange
  refine managed_reading fun v => ?_
  split
  · exact managed_pure _
  · refine .bind (managed_require _ _) fun _ => ?_
    exact .bind (Storage.managed_rewrite _) fun _ => managed_pure start

theorem managed_swapErase (position : Nat) : Managed (swapErase position : Op (Vector α) α) := by
  unfold swapErase
  refine managed_reading fun v => ?_
  split
  · exact managed_fail _
  · exact .bind (Storage.managed_rewrite _) fun _ => managed_pure _

theorem managed_truncate (size : Nat) : Managed (truncate size : Op (Vector α) Unit) :=
  Storage.managed_rewrite _

theorem managed_resize [Inhabited α] (size : Nat) : Managed (resize size : Op (Vector α) Unit) := by
  unfold resize
  refine managed_reading fun v => ?_
  split
  · exact managed_truncate size
  · split
    · refine .bind (.orAbort (.reallocate _)) fun _ => ?_
      exact Storage.managed_rewrite _
    · exact Storage.managed_rewrite _

theorem managed_resizeWith (size : Nat) (x : α) : Managed (resizeWith size x) := by
  unfold resizeWith
  refine managed_reading fun v => ?_
  split
  · exact .bind (managed_insertMany _ _ x) fun _ => managed_pure ()
  · exact managed_truncate size

theorem managed_tryReserve (capacity : Nat) : Managed (tryReserve capacity : Op (Vector α) Unit) := by
  unfold tryReserve
  refine managed_reading fun v => ?_
  split
  · exact .reallocate capacity
  · exact managed_pure ()

theorem managed_tryAssign (items : List α) : Managed (tryAssign items) := by
  unfold tryAssign clear
  refine .bind (managed_truncate 0) fun _ => ?_
  refine managed_reading fun v => ?_
  split
  · exact .bind (.reallocateDiscarding _) fun _ => Storage.managed_rewrite _
  · exact Storage.managed_rewrite _

theorem managed_assign (items : List α) : Managed (assign items) :=
  .orAbort (managed_tryAssign items)

theorem managed_announce (promised : Nat) : Managed (announce promised : Op (Vector α) Unit) := by
  unfold announce
  refine managed_reading fun v => ?_
  dsimp only
  split
  · exact .orAbort (.reallocate _)
  · exact managed_pure ()

theorem managed_extendHinted (items : List α) (promised : Nat) : Managed (extendHinted items promised) :=
  .bind (managed_announce promised) fun _ => managed_forM managed_push

theorem managed_get (position : Nat) : Managed (get position : Op (Vector α) α) := by
  unfold get
  refine managed_reading fun v => ?_
  split
  · exact managed_pure _
  · exact managed_fail _

theorem managed_set (position : Nat) (x : α) : Managed (set position x) := by
  unfold set
  refine managed_reading fun v => ?_
  exact .bind (managed_require _ _) fun _ => Storage.managed_rewrite _

theorem managed_front : Managed (front : Op (Vector α) α) := by
  unfold front
  refine managed_reading fun v => ?_
  exact .bind (managed_require _ _) fun _ => managed_get _

theorem managed_back : Managed (back : Op (Vector α) α) := by
  unfold back
  refine managed_reading fun v => ?_
  exact .bind (managed_require _ _) fun _ => managed_get _

theorem managed_setFront (x : α) : Managed (setFront x) := by
  unfold setFront
  refine managed_reading fun v => ?_
  exact .bind (managed_require _ _) fun _ => managed_set _ x

theorem managed_setBack (x : α) : Managed (setBack x) := by
  unfold setBack
  refine managed_reading fun v => ?_
  exact .bind (managed_require _ _) fun _ => managed_set _ x

theorem managed_item (position : Nat) : Managed (item position : Op (Vector α) α) := by
  unfold item
  refine managed_reading fun v => ?_
  split
  · exact managed_pure _
  · exact managed_throw _

theorem managed_setItem (position : Nat) (x : α) : Managed (setItem position x) := by
  unfold setItem
  refine managed_reading fun v => ?_
  split
  · exact Storage.managed_rewrite _
  · exact managed_throw _

theorem managed_find [BEq α] (x : α) : Managed (find x) := by
  unfold find
  refine managed_reading fun v => ?_
  exact managed_pure _

theorem managed_findFrom [BEq α] (x : α) (first : Nat) : Managed (findFrom x first) := by
  unfold findFrom
  refine managed_reading fun v => ?_
  exact .bind (managed_require _ _) fun _ => managed_pure _

/-- How a copy of a vector is filled. -/
def refill (v : Vector α) : Op (Vector α) Unit :=
  match v.engine with
  | .heap _ capacity _ => do
    if v.size ≠ 0 then
      Op.orAbort (Storage.reallocateDiscarding capacity)
      extend v.items.toList
  | .inline _ => extend v.items.toList

theorem clone_eq (v : Vector α) : (clone v : Op σ (Vector α)) = Op.build ⟨v.engine.emptied, #[]⟩ v.refill := by
  unfold clone refill
  cases v.engine <;> rfl

theorem managed_refill (v : Vector α) : Managed v.refill := by
  unfold refill
  split
  · split
    · exact .bind (.orAbort (.reallocateDiscarding _)) fun _ => managed_extendHinted _ _
    · exact managed_pure ()
  · exact managed_extendHinted _ _

theorem managed_renew {fill : Op (Vector α) Unit} (managed : Managed fill) : Managed (renew fill) :=
  .remake (fun _ => managed) (fun _ => .fresh) fun _ => ⟨rfl, rfl⟩

/-- The iterator that consumes a vector hands back the vector's block. -/
theorem managed_drain (sides : List Side) : Managed (drain sides : Op (Vector α) (Drained α)) := by
  have vacates : (drain sides : Op (Vector α) (Drained α)) = Op.vacate
      (fun v => ⟨((Drain.ofVector v).takeAll sides).1, ((Drain.ofVector v).takeAll sides).2.rest⟩)
      fun v => ⟨v.engine.fresh, #[]⟩ := by
    funext host
    obtain ⟨-, -, sameEngine⟩ := Drain.takeAll_rests sides (Drain.ofVector_rests host.container)
    have handedBack : Container.dispose ((Drain.ofVector host.container).takeAll sides).2 host.pool =
        Container.dispose host.container host.pool := congrArg (Engine.release α · host.pool) sameEngine
    rw [Op.vacate, ← handedBack]
    rfl
  rw [vacates]
  exact .vacate _ _ fun _ => .fresh

variable [BEq α] [Inhabited α] [Shown α]

theorem managed_clone : Managed ((Command.clone : Command α).perform) := by
  simp only [Command.perform, clone_eq]
  exact .trial managed_refill fun _ => .emptied

theorem managed_becomeClone : Managed ((Command.becomeClone : Command α).perform) := by
  have replaces : Managed (do
      let v ← Op.current
      let made ← Op.build ⟨v.engine.emptied, #[]⟩ v.refill
      Op.replace made : Op (Vector α) Unit) := .remake managed_refill (fun _ => .emptied) fun _ => ⟨rfl, rfl⟩
  have performs : (Command.becomeClone : Command α).perform = (do
      let v ← Op.current
      let made ← Op.build ⟨v.engine.emptied, #[]⟩ v.refill
      Op.replace made : Op (Vector α) Unit) >>= fun _ => return .done := by
    simp only [Command.perform, clone_eq, bind_assoc]
  rw [performs]
  exact .bind replaces fun _ => managed_pure _

theorem managed_perform (command : Command α) : Managed command.perform := by
  have done : ∀ {op : Op (Vector α) Unit}, Managed op → Managed (do op; return (.done : Reply α)) :=
    fun accounts => .bind accounts fun _ => managed_pure _
  cases command with
  | push x => exact done (managed_push x)
  | tryPush x => exact done (managed_tryPush x)
  | pushDefault => exact done (managed_push default)
  | pop =>
    apply managed_map
    refine managed_reading fun v => ?_
    exact .bind (Storage.managed_rewrite _) fun _ => managed_pure _
  | insert position x => exact managed_map _ (.orAbort (managed_tryInsert position x))
  | tryInsert position x => exact managed_map _ (managed_tryInsert position x)
  | insertMany position n x => exact managed_map _ (managed_insertMany position n x)
  | tryInsertMany position n x => exact managed_map _ (managed_tryInsertMany position n x)
  | remove position => exact managed_map _ (managed_remove position)
  | erase position => exact managed_map _ (managed_erase position)
  | eraseRange start stop => exact managed_map _ (managed_eraseRange start stop)
  | swapErase position => exact managed_map _ (managed_swapErase position)
  | truncate size => exact done (managed_truncate size)
  | clear => exact done (managed_truncate 0)
  | reset => exact done Storage.managed_reset
  | resize size => exact done (managed_resize size)
  | resizeWith size x => exact done (managed_resizeWith size x)
  | reserve capacity => exact done (.orAbort (managed_tryReserve capacity))
  | tryReserve capacity => exact done (managed_tryReserve capacity)
  | setCapacity capacity => exact done (.orAbort (.reallocate capacity))
  | assign items => exact done (managed_assign items)
  | tryAssign items => exact done (managed_tryAssign items)
  | extend items => exact done (managed_extendHinted items items.length)
  | extendHinted items promised => exact done (managed_extendHinted items promised)
  | get position => exact managed_map _ (managed_get position)
  | front => exact managed_map _ managed_front
  | back => exact managed_map _ managed_back
  | item position => exact managed_map _ (managed_item position)
  | set position x => exact done (managed_set position x)
  | setFront x => exact done (managed_setFront x)
  | setBack x => exact done (managed_setBack x)
  | setItem position x => exact done (managed_setItem position x)
  | modifyEach change => exact done (Storage.managed_rewrite _)
  | find x => exact managed_map _ (managed_find x)
  | findFrom x first => exact managed_map _ (managed_findFrom x first)
  | clone => exact managed_clone
  | becomeClone => exact managed_becomeClone
  | drain sides => exact managed_map _ (managed_drain sides)
  | renew => exact done (managed_renew (managed_pure ()))
  | overStorage =>
    refine .bind (managed_renew (managed_pure ())) fun _ => ?_
    exact managed_reading fun _ => managed_pure _
  | renewSized size => exact done (managed_renew (managed_resize size))
  | renewFrom items => exact done (managed_renew (managed_assign items))
  | collect items => exact done (managed_renew (managed_extendHinted items items.length))
  | setAllocator id => exact done (.setAllocator id)
  | isEmpty | compare _ | text | allocator => exact managed_reading fun _ => managed_pure _

theorem accounts_perform (command : Command α) : Accounts command.perform :=
  (managed_perform command).accounts

end Vector

section Flat
variable {κ ν : Type} [Stored κ] [Stored ν]

namespace FlatMap
variable [Ord κ]

theorem managed_tryInsert [BEq κ] (k : κ) (value : ν) : Managed (tryInsert k value) := by
  unfold tryInsert
  refine managed_reading fun map => ?_
  dsimp only
  split
  · exact managed_pure _
  · exact .bind (Vector.managed_tryInsert _ _) fun _ => managed_pure _

theorem managed_setValue (k : κ) (value : ν) : Managed (setValue k value) := by
  unfold setValue
  refine managed_reading fun map => ?_
  split
  · exact managed_pure _
  · exact .bind (Storage.managed_rewrite _) fun _ => managed_pure _

theorem managed_erase (k : κ) : Managed (erase k : Op (FlatMap κ ν) Nat) := by
  unfold erase
  refine managed_reading fun map => ?_
  split
  · exact .bind (Vector.managed_erase _) fun _ => managed_pure _
  · exact managed_pure _

theorem managed_remove (k : κ) : Managed (remove k : Op (FlatMap κ ν) (Option (κ × ν))) := by
  unfold remove
  refine managed_reading fun map => ?_
  split
  · exact managed_map _ (Vector.managed_remove _)
  · exact managed_pure _

theorem managed_renewFrom [BEq κ] (pairs : List (κ × ν)) : Managed (renewFrom pairs) := by
  apply Vector.managed_renew
  refine .bind (Vector.managed_extendHinted pairs pairs.length) fun _ => ?_
  exact Storage.managed_rewrite _

theorem managed_perform [BEq κ] (command : Command κ ν) : Managed command.perform := by
  cases command with
  | insert k value => exact .bind (.orAbort (managed_tryInsert k value)) fun _ => managed_pure _
  | tryInsert k value => exact .bind (managed_tryInsert k value) fun _ => managed_pure _
  | setValue k value => exact managed_map _ (managed_setValue k value)
  | erase k => exact managed_map _ (managed_erase k)
  | eraseAt position => exact managed_map _ (Vector.managed_erase position)
  | remove k => exact managed_map _ (managed_remove k)
  | clear => exact .bind (Vector.managed_truncate 0) fun _ => managed_pure _
  | renewFrom pairs => exact .bind (managed_renewFrom pairs) fun _ => managed_pure _
  | find _ | get _ | lowerBound _ | upperBound _ | isEmpty | iterate =>
    exact managed_reading fun _ => managed_pure _

theorem accounts_perform [BEq κ] (command : Command κ ν) : Accounts command.perform :=
  (managed_perform command).accounts

end FlatMap

namespace FlatMultiMap

theorem managed_findValue [BEq ν] (value : ν) (start stop : Nat) :
    Managed (findValue value start stop : Op (FlatMultiMap κ ν) (Option Nat)) := by
  unfold findValue
  refine managed_reading fun map => ?_
  split
  · exact managed_pure _
  · exact managed_throw _

variable [Ord κ]

theorem managed_tryInsert (k : κ) (value : ν) : Managed (tryInsert k value) := by
  unfold tryInsert
  refine managed_reading fun map => ?_
  exact Vector.managed_tryInsert _ _

theorem managed_erase (k : κ) : Managed (erase k : Op (FlatMultiMap κ ν) Nat) := by
  unfold erase
  refine managed_reading fun map => ?_
  exact .bind (Vector.managed_eraseRange _ _) fun _ => managed_pure _

theorem managed_renewFrom (pairs : List (κ × ν)) : Managed (renewFrom pairs) := by
  apply Vector.managed_renew
  refine .bind (Vector.managed_extendHinted pairs pairs.length) fun _ => ?_
  exact Storage.managed_rewrite _

theorem managed_perform [BEq ν] (command : Command κ ν) : Managed command.perform := by
  cases command with
  | insert k value => exact managed_map _ (.orAbort (managed_tryInsert k value))
  | tryInsert k value => exact managed_map _ (managed_tryInsert k value)
  | findValue value start stop => exact managed_map _ (managed_findValue value start stop)
  | erase k => exact managed_map _ (managed_erase k)
  | eraseAt position => exact managed_map _ (Vector.managed_erase position)
  | clear => exact .bind (Vector.managed_truncate 0) fun _ => managed_pure _
  | renewFrom pairs => exact .bind (managed_renewFrom pairs) fun _ => managed_pure _
  | find _ | count _ | equalRange _ | getAll _ | lowerBound _ | upperBound _ | isEmpty | iterate =>
    exact managed_reading fun _ => managed_pure _

theorem accounts_perform [BEq ν] (command : Command κ ν) : Accounts command.perform :=
  (managed_perform command).accounts

end FlatMultiMap

end Flat

end Containers
