import Containers.Proofs.Copying
import Containers.Vector.Command

/-! Runs of vectors. Whatever the commands are and whatever the allocators refuse, a
vector holds after every command what a list holds after the same edits, and it
answers what the list answers; where it does not, a condition on a place or a count
is broken, which the list shows, or growth that the command asked for was not
granted, which the engine and the allocators show. -/
namespace Containers.Vector

namespace Reference

section Lists
variable {α β : Type} [BEq α] [Inhabited α] [Shown α]

/-- What a reply shows of a list. Where the elements lie is left out. -/
def shown : Reply α → Reply α
  | .copy made equal => .copy ⟨.inline 0, made.items⟩ equal
  | .allocator _ => .allocator none
  | reply => reply

/-- The answer of an edit as a reply. -/
def replying (reply : β → Reply α) (edited : Except Fault (List α × β)) : Except Fault (List α × Reply α) :=
  edited.map fun (left, answer) => (left, reply answer)

/-- What a command leaves of a list and what is answered, or the fault of the
condition that the command breaks. -/
def apply (items : List α) : Command α → Except Fault (List α × Reply α)
  | .push x => .ok (items ++ [x], .done)
  | .tryPush x => .ok (items ++ [x], .done)
  | .pushDefault => .ok (items ++ [default], .done)
  | .pop => .ok (items.dropLast, .element? items.getLast?)
  | .insert position x => replying .place (insert items position x)
  | .tryInsert position x => replying .place (insert items position x)
  | .insertMany position n x => replying .place (insertMany items position n x)
  | .tryInsertMany position n x => replying .place (insertMany items position n x)
  | .remove position => replying .element (remove items position)
  | .erase position => replying (fun _ => .place position) (remove items position)
  | .eraseRange start stop => replying .place (eraseRange items start stop)
  | .swapErase position => replying .element (swapErase items position)
  | .truncate size => .ok (items.take size, .done)
  | .clear => .ok ([], .done)
  | .reset => .ok ([], .done)
  | .resize size => .ok (resize items size default, .done)
  | .resizeWith size x => replying (fun _ => .done) (resizeWith items size x)
  | .reserve _ => .ok (items, .done)
  | .tryReserve _ => .ok (items, .done)
  | .setCapacity capacity => .ok (items.take capacity, .done)
  | .assign given => .ok (given, .done)
  | .tryAssign given => .ok (given, .done)
  | .extend given => .ok (items ++ given, .done)
  | .extendHinted given _ => .ok (items ++ given, .done)
  | .get position => replying .element (read items position (.panicked (.index position items.length)))
  | .front => replying .element (read items 0 (.panicked (.emptyVector .front)))
  | .back => replying .element (read items (items.length - 1) (.panicked (.emptyVector .back)))
  | .item position => replying .element (read items position .outOfRange)
  | .set position x =>
    replying (fun _ => .done) (write items position x (.panicked (.index position items.length)))
  | .setFront x => replying (fun _ => .done) (write items 0 x (.panicked (.emptyVector .frontWrite)))
  | .setBack x =>
    replying (fun _ => .done) (write items (items.length - 1) x (.panicked (.emptyVector .backWrite)))
  | .setItem position x => replying (fun _ => .done) (write items position x .outOfRange)
  | .modifyEach change => .ok (items.map change, .done)
  | .isEmpty => .ok (items, .flag items.isEmpty)
  | .find x => .ok (items, .place? (items.findIdx? (· == x)))
  | .findFrom x start =>
    if start ≤ items.length then
      .ok (items, .place? (((items.drop start).findIdx? (· == x)).map (· + start)))
    else .error (.panicked (.startIndex start items.length))
  | .compare other => .ok (items, .comparison (items == other) (other == items) (items == other))
  | .text => .ok (items, .text (Text.list (items.map Shown.text)))
  | .clone => .ok (items, .copy ⟨.inline 0, items.toArray⟩ (items == items))
  | .becomeClone => .ok (items, .done)
  | .drain sides => .ok ([], .drained ⟨(consume sides items).1, (consume sides items).2.toArray⟩)
  | .renew => .ok ([], .done)
  | .overStorage => .ok ([], .flag true)
  | .renewSized size => .ok (List.replicate size default, .done)
  | .renewFrom given => .ok (given, .done)
  | .collect given => .ok (given, .done)
  | .allocator => .ok (items, .allocator none)
  | .setAllocator _ => .ok (items, .done)

/-- The list after a command. The reference is told whether the command failed, and
how many elements an unfinished extension appended. -/
def next (items : List α) (command : Command α) (step : Step (Vector α) (Reply α)) : List α :=
  match apply items command, step.outcome with
  | .error _, _ => items
  | .ok (left, _), .ok _ => left
  | .ok _, .error _ =>
    match command with
    | .assign _ => []
    | .tryAssign _ => []
    | .extend given => items ++ given.take (step.after.container.size - items.length)
    | .extendHinted given _ => items ++ given.take (step.after.container.size - items.length)
    | _ => items

end Lists

section Growth
variable {α : Type} [Stored α]

/-- A vector that is made anew begins empty, on the first allocator. -/
def anew (host : Host (Vector α)) : Host (Vector α) :=
  ⟨⟨host.container.engine.fresh, #[]⟩, host.pool⟩

/-- Something that was made aside was not finished for this reason. -/
def Aside (before : Host (Vector α)) (reason : Fault → Host (Vector α) → Prop) (fault : Fault)
    (after : Host (Vector α)) : Prop :=
  after.container = before.container ∧ ∃ made, reason fault made

/-- The growth that a command asks for is not granted; what is left then. -/
def Ungranted (before : Host (Vector α)) : Command α → Fault → Host (Vector α) → Prop
  | .push _ => Aborting (Unpushed before)
  | .pushDefault => Aborting (Unpushed before)
  | .tryPush _ => Unpushed before
  | .insert _ _ => Aborting (Unpushed before)
  | .tryInsert _ _ => Unpushed before
  | .insertMany _ n _ => Aborting (Crowded before (before.container.size + n))
  | .tryInsertMany _ n _ => Crowded before (before.container.size + n)
  | .resize size => Aborting (Crowded before size)
  | .resizeWith size _ => Aborting (Crowded before size)
  | .reserve capacity =>
    Aborting fun fault after => before.container.capacity < capacity ∧ Unmoved before capacity fault after
  | .tryReserve capacity =>
    fun fault after => before.container.capacity < capacity ∧ Unmoved before capacity fault after
  | .setCapacity capacity => Aborting (Unmoved before capacity)
  | .assign given => Aborting (Unassigned before given.length)
  | .tryAssign given => Unassigned before given.length
  | .extend given => Aborting (Stalled before given given.length)
  | .extendHinted given promised => Aborting (Stalled before given promised)
  | .clone => Uncopied before
  | .becomeClone => Uncopied before
  | .renewSized size => Aside before (Aborting (Crowded (anew before) size))
  | .renewFrom given => Aside before (Aborting (Unassigned (anew before) given.length))
  | .collect given => Aside before (Aborting (Stalled (anew before) given given.length))
  | _ => fun _ _ => False

variable [BEq α] [Inhabited α] [Shown α]

/-- A step does what the list does: it breaks the same condition and changes nothing,
or it answers the same and leaves the same elements, or growth is not granted. -/
inductive Agrees (items : List α) (before : Host (Vector α)) (command : Command α) :
    Step (Vector α) (Reply α) → Prop where
  | broken {fault : Fault} (breaks : apply items command = .error fault) :
      Agrees items before command ⟨.error fault, before⟩
  | answered {left : List α} {reply : Reply α} {after : Host (Vector α)}
      (applies : apply items command = .ok (left, shown reply)) (holds : Holds after.container left) :
      Agrees items before command ⟨.ok reply, after⟩
  | ungranted {result : List α × Reply α} {fault : Fault} {after : Host (Vector α)}
      (applies : apply items command = .ok result) (ungranted : Ungranted before command fault after) :
      Agrees items before command ⟨.error fault, after⟩

/-- The step agrees with the list, and the buffer then holds exactly the list that is left. -/
def Matches (items : List α) (command : Command α) (before : Host (Vector α))
    (step : Step (Vector α) (Reply α)) : Prop :=
  Agrees items before command step ∧ Holds step.after.container (next items command step)

end Growth

end Reference

section Commands
variable {α β : Type} [Stored α] [BEq α] [Inhabited α] [Shown α] {host : Host (Vector α)} {items : List α}

theorem agrees_of_meets {command : Command α} {expected : Except Fault (List α × Reply α)}
    (meets : Meets command.perform host expected (Reference.Ungranted host command))
    (applies : Reference.apply items command = expected.map fun (left, reply) => (left, Reference.shown reply)) :
    Reference.Agrees items host command (command.perform.step host) := by
  simp only [Meets, Leads] at meets
  rw [Op.step]
  cases ran : command.perform host with
  | ok reply after =>
    rw [ran] at meets
    obtain ⟨left, rfl, holds⟩ := meets
    exact .answered applies holds
  | error fault after =>
    rw [ran] at meets
    obtain ⟨rfl, rfl⟩ | ⟨⟨result, rfl⟩, ungranted⟩ := meets
    · exact .broken applies
    · exact .ungranted applies ungranted

/-- A command that passes the answer of an operation on. -/
theorem agrees_of_answer {command : Command α} {op : Op (Vector α) β} {edited : Except Fault (List α × β)}
    (reply : β → Reply α) (performs : command.perform = reply <$> op)
    (applies : Reference.apply items command = Reference.replying reply edited)
    (plain : ∀ answer, Reference.shown (reply answer) = reply answer)
    (meets : Meets op host edited (Reference.Ungranted host command)) :
    Reference.Agrees items host command (command.perform.step host) := by
  apply agrees_of_meets
  · rw [performs]
    exact meets_map reply meets
  · rw [applies]
    cases edited with
    | error fault => rfl
    | ok result => simp only [Reference.replying, Except.map, plain]

/-- A command that answers nothing but that it was done. -/
theorem agrees_of_done {command : Command α} {op : Op (Vector α) Unit} {edited : Except Fault (List α × Unit)}
    (performs : command.perform = do let _ ← op; return .done)
    (applies : Reference.apply items command = Reference.replying (fun _ => .done) edited)
    (meets : Meets op host edited (Reference.Ungranted host command)) :
    Reference.Agrees items host command (command.perform.step host) := by
  apply agrees_of_meets
  · rw [performs]
    exact meets_return Reply.done meets
  · rw [applies]
    cases edited with
    | error fault => rfl
    | ok result => rfl

/-- A command that only reads. -/
theorem agrees_of_reading {command : Command α} (holds : Holds host.container items) (read : Vector α → Reply α)
    (performs : command.perform = do return read (← Op.current))
    (applies : Reference.apply items command = .ok (items, Reference.shown (read host.container))) :
    Reference.Agrees items host command (command.perform.step host) := by
  rw [performs]
  exact .answered applies holds

theorem clone_agrees (holds : Holds host.container items) :
    Reference.Agrees items host .clone ((Command.clone : Command α).perform.step host) := by
  refine (leads_iff_step (Command.clone : Command α).perform fun outcome after =>
    Reference.Agrees items host .clone ⟨outcome, after⟩).mp ?_
  simp only [Command.perform]
  apply current_then
  rw [leads_bind]
  apply (clone_leads holds).mono
  · rintro made after ⟨copied, kept⟩
    have holds' : Holds after.container items := by rwa [kept]
    refine .answered ?_ holds'
    simp only [Reference.apply, Reference.shown, sameItems, copied.toArray, holds.toArray, List.beq_toArray]
  · intro fault after uncopied
    exact .ungranted rfl uncopied

theorem becomeClone_agrees (holds : Holds host.container items) :
    Reference.Agrees items host .becomeClone ((Command.becomeClone : Command α).perform.step host) := by
  refine (leads_iff_step (Command.becomeClone : Command α).perform fun outcome after =>
    Reference.Agrees items host .becomeClone ⟨outcome, after⟩).mp ?_
  simp only [Command.perform]
  apply current_then
  rw [leads_bind]
  apply (clone_leads holds).mono
  · rintro made after ⟨copied, kept⟩
    exact .answered rfl copied
  · intro fault after uncopied
    exact .ungranted rfl uncopied

theorem overStorage_agrees (host : Host (Vector α)) (items : List α) :
    Reference.Agrees items host .overStorage ((Command.overStorage : Command α).perform.step host) := by
  have fits : (Storage.Fits (⟨host.container.engine.fresh, #[]⟩ : Storage α)) := Nat.zero_le _
  refine .answered ?_ (holds_empty _)
  simp only [Reference.apply, Reference.shown, decide_eq_true fits]

theorem perform_agrees (holds : Holds host.container items) (command : Command α) :
    Reference.Agrees items host command (command.perform.step host) := by
  cases command with
  | push x => exact agrees_of_done rfl rfl (push_meets holds x)
  | tryPush x => exact agrees_of_done rfl rfl (tryPush_meets holds x)
  | pushDefault => exact agrees_of_done rfl rfl (push_meets holds default)
  | pop => exact agrees_of_answer Reply.element? rfl rfl (fun _ => rfl) (pop_meets holds)
  | insert position x => exact agrees_of_answer Reply.place rfl rfl (fun _ => rfl) (insert_meets holds position x)
  | tryInsert position x =>
    exact agrees_of_answer Reply.place rfl rfl (fun _ => rfl) (tryInsert_meets holds position x)
  | insertMany position n x =>
    exact agrees_of_answer Reply.place rfl rfl (fun _ => rfl) (insertMany_meets holds position n x)
  | tryInsertMany position n x =>
    exact agrees_of_answer Reply.place rfl rfl (fun _ => rfl) (tryInsertMany_meets holds position n x)
  | remove position => exact agrees_of_answer Reply.element rfl rfl (fun _ => rfl) (remove_meets holds position)
  | erase position =>
    apply agrees_of_answer Reply.place rfl _ (fun _ => rfl) (erase_meets holds position)
    simp only [Reference.apply]
    cases Reference.remove items position <;> rfl
  | eraseRange start stop =>
    exact agrees_of_answer Reply.place rfl rfl (fun _ => rfl) (eraseRange_meets holds start stop)
  | swapErase position =>
    exact agrees_of_answer Reply.element rfl rfl (fun _ => rfl) (swapErase_meets holds position)
  | truncate size => exact agrees_of_done rfl rfl (truncate_meets holds size)
  | clear => exact agrees_of_done rfl rfl (truncate_meets holds 0)
  | reset => exact agrees_of_done rfl rfl (reset_meets host)
  | resize size => exact agrees_of_done rfl rfl (resize_meets holds size)
  | resizeWith size x => exact agrees_of_done rfl rfl (resizeWith_meets holds size x)
  | reserve capacity => exact agrees_of_done rfl rfl (reserve_meets holds capacity)
  | tryReserve capacity => exact agrees_of_done rfl rfl (tryReserve_meets holds capacity)
  | setCapacity capacity => exact agrees_of_done rfl rfl (setCapacity_meets holds capacity)
  | assign given => exact agrees_of_done rfl rfl (assign_meets host given)
  | tryAssign given => exact agrees_of_done rfl rfl (tryAssign_meets host given)
  | extend given => exact agrees_of_done rfl rfl (extendHinted_meets holds given given.length)
  | extendHinted given promised => exact agrees_of_done rfl rfl (extendHinted_meets holds given promised)
  | get position => exact agrees_of_answer Reply.element rfl rfl (fun _ => rfl) (get_meets holds position)
  | front => exact agrees_of_answer Reply.element rfl rfl (fun _ => rfl) (front_meets holds)
  | back => exact agrees_of_answer Reply.element rfl rfl (fun _ => rfl) (back_meets holds)
  | item position => exact agrees_of_answer Reply.element rfl rfl (fun _ => rfl) (item_meets holds position)
  | set position x => exact agrees_of_done rfl rfl (set_meets holds position x)
  | setFront x => exact agrees_of_done rfl rfl (setFront_meets holds x)
  | setBack x => exact agrees_of_done rfl rfl (setBack_meets holds x)
  | setItem position x => exact agrees_of_done rfl rfl (setItem_meets holds position x)
  | modifyEach change => exact agrees_of_done rfl rfl (modifyEach_meets holds change)
  | isEmpty =>
    have empty : decide (items.length = 0) = items.isEmpty := by cases items <;> simp
    apply agrees_of_reading holds (fun v => .flag (v.size = 0)) rfl
    rw [holds.length, empty]
    rfl
  | find x => exact agrees_of_answer Reply.place? rfl rfl (fun _ => rfl) (find_meets holds x)
  | findFrom x start =>
    apply agrees_of_answer Reply.place? rfl _ (fun _ => rfl) (findFrom_meets holds x start)
    simp only [Reference.apply]
    split
    · rfl
    · rfl
  | compare other =>
    apply agrees_of_reading holds (fun v => .comparison (sameItems v.items other.toArray)
      (sameItems other.toArray v.items) (sameItems v.items other.toArray)) rfl
    simp only [Reference.apply, Reference.shown, sameItems, holds.toArray, List.beq_toArray]
  | text =>
    apply agrees_of_reading holds (fun v => .text (text v)) rfl
    rw [text, holds.items_eq]
    rfl
  | clone => exact clone_agrees holds
  | becomeClone => exact becomeClone_agrees holds
  | drain sides =>
    apply agrees_of_answer Reply.drained rfl _ (fun _ => rfl) (drain_meets holds sides)
    rfl
  | renew => exact agrees_of_done rfl rfl (renew_empty_meets host)
  | overStorage => exact overStorage_agrees host items
  | renewSized size =>
    apply agrees_of_done rfl _ (renew_meets (resize_meets (holds_empty _) size))
    rw [resize_of_ge (Nat.zero_le _)]
    rfl
  | renewFrom given => exact agrees_of_done rfl rfl (renew_meets (assign_meets _ given))
  | collect given =>
    exact agrees_of_done rfl rfl (renew_meets (extendHinted_meets (holds_empty _) given given.length))
  | allocator => exact agrees_of_reading holds (fun v => .allocator v.engine.allocator?) rfl rfl
  | setAllocator id => exact agrees_of_done rfl rfl (setAllocator_meets holds id)

/-- Where growth is not granted, the elements stay, except for those that assigning
dropped and those that extending appended before. -/
theorem Reference.Agrees.holds {command : Command α} {step : Step (Vector α) (Reply α)}
    (agrees : Reference.Agrees items host command step) (holds : Holds host.container items) :
    Holds step.after.container (Reference.next items command step) := by
  cases agrees with
  | broken breaks =>
    simp only [Reference.next, breaks]
    exact holds
  | answered applies holds' =>
    simp only [Reference.next, applies]
    exact holds'
  | @ungranted result fault after applies ungranted =>
    simp only [Reference.next, applies]
    cases command with
    | push _ | pushDefault | insert _ _ | insertMany _ _ _ | resize _ | resizeWith _ _ | setCapacity _ =>
      obtain ⟨cause, -, kept, -⟩ := ungranted
      exact kept ▸ holds
    | tryPush _ | tryInsert _ _ | tryInsertMany _ _ _ =>
      exact ungranted.1 ▸ holds
    | reserve _ =>
      obtain ⟨cause, -, -, kept, -⟩ := ungranted
      exact kept ▸ holds
    | tryReserve _ => exact ungranted.2.1 ▸ holds
    | assign _ =>
      obtain ⟨cause, -, emptied, -⟩ := ungranted
      exact emptied ▸ holds_empty _
    | tryAssign _ => exact ungranted.1 ▸ holds_empty _
    | extend given | extendHinted given _ =>
      obtain ⟨cause, -, stalled⟩ := ungranted
      obtain ⟨count, holds', within⟩ := stalled.holds holds
      have appended : after.container.size - items.length = count := by
        rw [holds'.length, List.length_append, List.length_take]
        omega
      rwa [appended]
    | clone | becomeClone =>
      obtain ⟨cause, -, kept, -⟩ := ungranted
      exact kept ▸ holds
    | renewSized _ | renewFrom _ | collect _ => exact ungranted.1 ▸ holds
    | _ => exact ungranted.elim

/-- Every run of a vector follows the list that takes the same commands. -/
theorem run_refines_list (engine : Engine) (pool : Pool) (commands : List (Command α)) :
    Session.Follows Command.perform Reference.next Reference.Matches commands ⟨⟨engine, #[]⟩, pool⟩ [] := by
  apply Session.follows_of_step (fun host items => Holds host.container items)
  · intro command host items holds
    have agrees := perform_agrees holds command
    exact ⟨⟨agrees, agrees.holds holds⟩, agrees.holds holds⟩
  · exact holds_empty engine

end Commands

end Containers.Vector
