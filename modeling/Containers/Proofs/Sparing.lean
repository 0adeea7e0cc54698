import Containers.Proofs.ManagedVectors

/-! What an operation leaves that fails. Every operation asks for its memory before it
changes anything, and it checks its conditions before it asks: where it fails, the
container is what it was, and so are the allocators, but for the note of one of them
that it refused the layout that was asked for. -/
namespace Containers

/-- The layout that a fault names, if it is about a request that was refused. -/
def Fault.layout? : Fault → Option Layout
  | .refused layout => some layout
  | .aborted layout => some layout
  | _ => none

theorem Fault.layout?_abort (fault : Fault) : fault.abort.layout? = fault.layout? := by
  cases fault <;> rfl

/-- The pool after one of its allocators noted that it refused a layout. -/
def Pool.noting (id : AllocatorId) (layout : Layout) (pool : Pool) : Pool :=
  pool.set { pool.get id with history := .refused layout :: (pool.get id).history } id

/-- What is left where an operation fails that asks for no other layout than this one:
everything is as before, or an allocator refused the layout, and the fault names it. -/
inductive Spared {σ : Type} (before : Host σ) (asked : Option Layout) : Fault → Host σ → Prop where
  | untouched {fault : Fault} (plain : fault.layout? = none) : Spared before asked fault before
  | refused {fault : Fault} {layout : Layout} {id : AllocatorId} (named : fault.layout? = some layout)
      (wanted : asked = some layout)
      (refuses : (before.pool.get id).admits layout = false) :
      Spared before asked fault ⟨before.container, before.pool.noting id layout⟩

section Rules
variable {σ τ β γ : Type} {asked : Option Layout} {host after : Host σ} {fault : Fault}

theorem Spared.container (spared : Spared host asked fault after) : after.container = host.container := by
  cases spared with
  | untouched => rfl
  | refused => rfl

theorem Spared.abort (spared : Spared host asked fault after) : Spared host asked fault.abort after := by
  cases spared with
  | untouched plain => exact .untouched (fault.layout?_abort.trans plain)
  | refused named wanted refuses => exact .refused (fault.layout?_abort.trans named) wanted refuses

/-- Where the operation fails, everything is as before but for the note of a refusal. -/
def Spares (asked : Option Layout) (op : Op σ β) (host : Host σ) : Prop :=
  Leads op host (fun _ _ => True) (Spared host asked)

theorem spares_pure (answer : β) : Spares asked (pure answer) host :=
  trivial

theorem spares_fail (cause : Panic) : Spares asked (Op.fail cause : Op σ β) host :=
  .untouched rfl

theorem spares_rewrite {α : Type} {host : Host (Storage α)} (change : Array α → Array α) :
    Spares asked (Storage.rewrite change) host :=
  trivial

/-- Where the container is read, the rest goes on from the same host. -/
theorem spares_reading {next : σ → Op σ β} (rest : Spares asked (next host.container) host) :
    Spares asked (Op.current >>= next) host :=
  rest

/-- A condition is checked before anything changes. -/
theorem spares_require {next : Unit → Op σ β} {condition : Prop} [Decidable condition] {cause : Panic}
    (rest : Spares asked (next ()) host) : Spares asked (Op.require condition cause >>= next) host := by
  rw [Spares, leads_bind, leads_require]
  split
  · exact rest
  · exact .untouched rfl

/-- What may fail comes first; behind it nothing fails. -/
theorem spares_bind {op : Op σ β} {next : β → Op σ γ} (first : Spares asked op host)
    (rest : ∀ answer after, Sure (next answer) after fun _ _ => True) : Spares asked (op >>= next) host := by
  rw [Spares, leads_bind]
  exact Leads.mono first (fun answer after _ => (rest answer after).weaken fun _ _ _ => trivial)
    fun _ _ spared => spared

theorem spares_map (f : β → γ) {op : Op σ β} (spares : Spares asked op host) : Spares asked (f <$> op) host :=
  (leads_map f op).mpr spares

/-- What is made beside and fails before it has a buffer leaves nothing to hand back. -/
theorem spares_build [Container τ] {fresh : τ} {op : Op τ Unit} (bare : ∀ pool, Container.dispose fresh pool = pool)
    (spares : Spares asked op ⟨fresh, host.pool⟩) : Spares asked (Op.build fresh op) host := by
  rw [Spares, leads_build]
  refine Leads.mono spares (fun _ _ _ => trivial) fun fault made spared => ?_
  cases spared with
  | untouched plain =>
    rw [bare]
    exact .untouched plain
  | refused named wanted refuses =>
    rw [bare]
    exact .refused named wanted refuses

theorem spares_orAbort {op : Op σ β} (spares : Spares asked op host) : Spares asked (Op.orAbort op) host :=
  (leads_orAbort op).mpr (Leads.mono spares (fun _ _ _ => trivial) fun _ _ spared => spared.abort)

end Rules

/-- The layout of so many slots. -/
def slots (α : Type) [Stored α] (count : Nat) : Option Layout :=
  some ((Stored.layout α).array count)

namespace Storage
variable {α σ : Type} [Stored α]

theorem acquire_spares {host : Host σ} (id : AllocatorId) (count : Nat) :
    Spares (slots α count) (acquire α id count) host := by
  unfold acquire
  apply spares_require
  split
  · exact spares_pure 0
  · refine spares_bind ?_ fun _ _ => trivial
    rw [Spares, leads_request]
    cases rule : (host.pool.get id).admits ((Stored.layout α).array count) with
    | true =>
      simp only [Pool.allocate, Allocator.allocate, rule, ↓reduceIte]
    | false =>
      simp only [Pool.allocate, Allocator.allocate, rule, Bool.false_eq_true, ↓reduceIte]
      exact .refused rfl rfl rule

variable {host : Host (Storage α)}

theorem reallocate_spares (count : Nat) : Spares (slots α count) (reallocate count) host := by
  unfold reallocate
  apply spares_reading
  split
  · exact spares_fail _
  · exact spares_bind (acquire_spares _ count) fun _ _ => trivial

theorem reallocateDiscarding_spares (count : Nat) : Spares (slots α count) (reallocateDiscarding count) host := by
  unfold reallocateDiscarding
  apply spares_reading
  split
  · exact spares_fail _
  · apply spares_require
    exact spares_bind (acquire_spares _ count) fun _ _ => trivial

/-- The number of slots that a command asks for when it moves. -/
def Command.asks : Command α → Option Layout
  | .reallocate count => slots α count
  | .reallocateDiscarding count => slots α count
  | _ => none

theorem perform_spares (command : Command α) : Spares command.asks command.perform host := by
  cases command with
  | put x =>
    refine spares_map _ (spares_reading ?_)
    split
    · exact trivial
    · exact trivial
  | reallocate count => exact spares_bind (reallocate_spares count) fun _ _ => trivial
  | reallocateDiscarding count => exact spares_bind (reallocateDiscarding_spares count) fun _ _ => trivial
  | reset | intoVector | setAllocator _ => exact trivial

end Storage

namespace Vector
variable {α : Type} {host : Host (Vector α)} {asked : Option Layout}

theorem remove_spares (position : Nat) : Spares asked (remove position) host := by
  unfold remove
  apply spares_reading
  split
  · exact spares_fail _
  · exact trivial

theorem erase_spares (position : Nat) : Spares asked (erase position) host :=
  spares_bind (remove_spares position) fun _ _ => trivial

theorem eraseRange_spares (start stop : Nat) : Spares asked (eraseRange start stop) host := by
  unfold eraseRange
  apply spares_reading
  split
  · exact spares_pure _
  · apply spares_require
    exact trivial

theorem swapErase_spares (position : Nat) : Spares asked (swapErase position) host := by
  unfold swapErase
  apply spares_reading
  split
  · exact spares_fail _
  · exact trivial

theorem get_spares (position : Nat) : Spares asked (get position) host := by
  unfold get
  apply spares_reading
  split
  · exact spares_pure _
  · exact spares_fail _

theorem set_spares (position : Nat) (x : α) : Spares asked (set position x) host :=
  spares_reading (spares_require trivial)

theorem item_spares (position : Nat) : Spares asked (item position) host := by
  unfold item
  apply spares_reading
  split
  · exact spares_pure _
  · exact .untouched rfl

theorem setItem_spares (position : Nat) (x : α) : Spares asked (setItem position x) host := by
  unfold setItem
  apply spares_reading
  split
  · exact spares_rewrite _
  · exact .untouched rfl

theorem front_spares : Spares asked front host :=
  spares_reading (spares_require (get_spares 0))

theorem back_spares : Spares asked back host :=
  spares_reading (spares_require (get_spares _))

theorem setFront_spares (x : α) : Spares asked (setFront x) host :=
  spares_reading (spares_require (set_spares 0 x))

theorem setBack_spares (x : α) : Spares asked (setBack x) host :=
  spares_reading (spares_require (set_spares _ x))

theorem findFrom_spares [BEq α] (x : α) (start : Nat) : Spares asked (findFrom x start) host :=
  spares_reading (spares_require trivial)

variable [Stored α]

theorem growIfFull_spares : Spares (slots α (doubled host.container.capacity)) growIfFull host := by
  unfold growIfFull grow
  apply spares_reading
  split
  · apply spares_reading
    unfold doubled
    split
    · exact Storage.reallocate_spares _
    · exact spares_require (Storage.reallocate_spares _)
  · exact spares_pure ()

theorem tryPush_spares (x : α) : Spares (slots α (doubled host.container.capacity)) (tryPush x) host :=
  spares_bind growIfFull_spares fun _ _ => trivial

theorem push_spares (x : α) : Spares (slots α (doubled host.container.capacity)) (push x) host :=
  spares_orAbort (tryPush_spares x)

theorem tryInsert_spares (position : Nat) (x : α) :
    Spares (slots α (doubled host.container.capacity)) (tryInsert position x) host := by
  unfold tryInsert
  refine spares_reading (spares_require ?_)
  exact spares_bind growIfFull_spares fun _ _ => trivial

theorem tryInsertMany_spares (position n : Nat) (x : α) :
    Spares (slots α (host.container.capacityFor (host.container.size + n))) (tryInsertMany position n x) host := by
  unfold tryInsertMany
  refine spares_reading (spares_require ?_)
  split
  · exact spares_pure position
  · apply spares_require
    split
    · exact spares_bind (Storage.reallocate_spares _) fun _ _ => trivial
    · exact trivial

theorem resize_spares [Inhabited α] (size : Nat) :
    Spares (slots α (host.container.capacityFor size)) (resize size) host := by
  unfold resize
  apply spares_reading
  split
  · exact spares_rewrite _
  · split
    · exact spares_bind (spares_orAbort (Storage.reallocate_spares _)) fun _ _ => trivial
    · exact trivial

theorem resizeWith_spares (size : Nat) (x : α) :
    Spares (slots α (host.container.capacityFor size)) (resizeWith size x) host := by
  unfold resizeWith
  apply spares_reading
  split
  · rename_i longer
    have counts : host.container.size + (size - host.container.size) = size := by omega
    have inserts : Spares (slots α (host.container.capacityFor (host.container.size + (size - host.container.size))))
        (tryInsertMany host.container.size (size - host.container.size) x) host := tryInsertMany_spares _ _ x
    rw [counts] at inserts
    exact spares_bind (spares_orAbort inserts) fun _ _ => trivial
  · exact spares_rewrite _

theorem tryReserve_spares (capacity : Nat) : Spares (slots α capacity) (tryReserve capacity) host := by
  unfold tryReserve
  apply spares_reading
  split
  · exact Storage.reallocate_spares capacity
  · exact spares_pure ()

/-- The vector without its elements, in the same buffer. -/
def cleared (host : Host (Vector α)) : Host (Vector α) :=
  ⟨⟨host.container.engine, #[]⟩, host.pool⟩

/-- Assigning fails as it would for a vector that was cleared before. -/
theorem tryAssign_spares (items : List α) :
    Leads (tryAssign items) host (fun _ _ => True)
      (Spared (cleared host) (slots α (host.container.capacityFor items.length))) := by
  unfold tryAssign
  apply (clear_leaves host).andThen
  rintro _ _ rfl
  have assigns : Spares (slots α (host.container.capacityFor items.length)) (do
      let v ← Op.current
      if v.capacity < items.length then
        Storage.reallocateDiscarding (v.capacityFor items.length)
      Storage.rewrite (· ++ items) : Op (Vector α) Unit) (cleared host) := by
    apply spares_reading
    split
    · exact spares_bind (Storage.reallocateDiscarding_spares _) fun _ _ => trivial
    · exact trivial
  exact assigns

theorem announce_spares (promised : Nat) :
    Spares (slots α (host.container.capacityFor (min (host.container.size + promised) maxCount)))
      (announce promised) host := by
  unfold announce
  apply spares_reading
  dsimp only
  split
  · exact spares_orAbort (Storage.reallocate_spares _)
  · exact spares_pure ()

/-- Elements that are pushed one by one stay where there is no room for the next one. -/
theorem extendHinted_spares {items : List α} (holds : Holds host.container items) (given : List α) (promised : Nat) :
    Leads (extendHinted given promised) host (fun _ _ => True) fun fault after =>
      Spared host (slots α (host.container.capacityFor (min (host.container.size + promised) maxCount))) fault after ∨
        ∃ (count : Nat) (middle : Host (Vector α)), count < given.length ∧
          extendHinted (given.take count) promised host = .ok () middle ∧
          middle.container.items.toList = items ++ given.take count ∧
          Spared middle (slots α (doubled middle.container.capacity)) fault after := by
  rw [extendHinted, leads_bind]
  refine Leads.mono ((announce_leads holds promised).exactly.and (announce_spares promised)) ?_
    fun _ _ failed => .inl failed.2
  rintro _ middle ⟨⟨ran, holds', -⟩, -⟩
  refine (pushes_leads given holds').mono (fun _ _ _ => trivial) ?_
  rintro fault after ⟨count, last, x, short, reached, holdsLast, fails⟩
  refine .inr ⟨count, last, short, ?_, holdsLast.items_eq, ?_⟩
  · simp only [extendHinted, bind, EStateM.bind]
    rw [ran]
    exact reached
  · have spares : Spares (slots α (doubled last.container.capacity)) (push x) last := push_spares x
    rwa [Spares, Leads, fails] at spares

/-- Appending to an empty vector asks for room once, if the elements can be counted. -/
theorem collect_spares (engine : Engine) (pool : Pool) {given : List α} (counted : given.length ≤ maxCount) :
    Spares (slots α (capacityFor given.length (⟨engine, #[]⟩ : Vector α))) (extend given) ⟨⟨engine, #[]⟩, pool⟩ := by
  have wanted : min (0 + given.length) maxCount = given.length := by omega
  have start : Holds (⟨⟨engine, #[]⟩, pool⟩ : Host (Vector α)).container [] := holds_empty engine
  have announces := (announce_leads start given.length).and (announce_spares given.length)
  simp only [Storage.size, List.size_toArray, List.length_nil, wanted] at announces
  rw [Spares, extend, extendHinted, leads_bind]
  refine announces.mono ?_ fun _ _ failed => failed.2
  rintro _ middle ⟨⟨holds, room⟩, -⟩
  refine (pushes_sure given holds ?_).weaken fun _ _ _ => trivial
  rwa [List.length_nil, Nat.zero_add]

/-- A vector that begins anew has nothing to hand back. -/
theorem release_vacated {engine other : Engine} (vacated : engine.Vacated other) (pool : Pool) :
    Container.dispose (⟨other, #[]⟩ : Vector α) pool = pool := by
  have empty : ∀ id, Engine.release α (.heap id 0 0) pool = pool := fun id => by
    rw [Engine.release, if_pos (Or.inl rfl)]
  cases vacated with
  | emptied =>
    cases engine with
    | inline capacity => rfl
    | heap id capacity address => exact empty id
  | fresh =>
    cases engine with
    | inline capacity => rfl
    | heap id capacity address => exact empty .a

/-- A copy asks for a buffer of the same capacity before anything is copied. -/
theorem refill_spares {items : List α} (holds : Holds host.container items) :
    Spares (slots α host.container.capacity) host.container.refill
      ⟨⟨host.container.engine.emptied, #[]⟩, host.pool⟩ := by
  have room := holds.room
  have filled : ∀ made : Host (Vector α), made.container.items = #[] →
      host.container.capacity ≤ made.container.capacity →
      Sure (extend host.container.items.toList) made fun _ _ => True := by
    intro made empty enough
    rw [holds.items_eq]
    refine (extend_sure (holds_of_empty empty) items ?_).weaken fun _ _ _ => trivial
    rw [List.length_nil, Nat.zero_add]
    exact Nat.le_trans room enough
  unfold refill
  split
  · rename_i capacity _ heap
    have isCapacity : host.container.capacity = capacity := by
      rw [Storage.capacity, heap]
      rfl
    split
    · rename_i nonempty
      have larger : (Storage.capacity (⟨host.container.engine.emptied, #[]⟩ : Vector α)) < capacity := by
        have := holds.fits
        simp only [Storage.Fits] at this
        rw [Storage.capacity, heap]
        change 0 < capacity
        omega
      rw [Spares, leads_bind, leads_orAbort, isCapacity]
      refine Leads.mono (Leads.and (Storage.reallocateDiscarding_leads _ larger)
        (Storage.reallocateDiscarding_spares capacity)) ?_ fun _ _ failed => failed.2.abort
      rintro _ made ⟨⟨empty, capacity_eq⟩, -⟩
      exact (filled made empty (Nat.le_of_eq (isCapacity.trans capacity_eq.symm))).weaken fun _ _ _ => trivial
    · exact trivial
  · rename_i inline
    refine (filled _ rfl ?_).weaken fun _ _ _ => trivial
    rw [Storage.capacity, Storage.capacity, inline]
    exact Nat.le_refl _

/-- The layout that a command asks for if it has to. -/
def Command.asks (v : Vector α) : Command α → Option Layout
  | .push _ => slots α (doubled v.capacity)
  | .tryPush _ => slots α (doubled v.capacity)
  | .pushDefault => slots α (doubled v.capacity)
  | .insert _ _ => slots α (doubled v.capacity)
  | .tryInsert _ _ => slots α (doubled v.capacity)
  | .insertMany _ n _ => slots α (v.capacityFor (v.size + n))
  | .tryInsertMany _ n _ => slots α (v.capacityFor (v.size + n))
  | .resize size => slots α (v.capacityFor size)
  | .resizeWith size _ => slots α (v.capacityFor size)
  | .reserve capacity => slots α capacity
  | .tryReserve capacity => slots α capacity
  | .setCapacity capacity => slots α capacity
  | .assign given => slots α (v.capacityFor given.length)
  | .tryAssign given => slots α (v.capacityFor given.length)
  | .extend given => slots α (v.capacityFor (min (v.size + given.length) maxCount))
  | .extendHinted _ promised => slots α (v.capacityFor (min (v.size + promised) maxCount))
  | .clone => slots α v.capacity
  | .becomeClone => slots α v.capacity
  | .renewSized size => slots α (capacityFor size (⟨v.engine.fresh, #[]⟩ : Vector α))
  | .renewFrom given => slots α (capacityFor given.length (⟨v.engine.fresh, #[]⟩ : Vector α))
  | .collect given => slots α (capacityFor given.length (⟨v.engine.fresh, #[]⟩ : Vector α))
  | _ => none

theorem renew_spares {fill : Op (Vector α) Unit}
    (spares : Spares asked fill ⟨⟨host.container.engine.fresh, #[]⟩, host.pool⟩) : Spares asked (renew fill) host :=
  spares_reading (spares_bind (spares_build (release_vacated .fresh) spares) fun _ _ => trivial)

/-- Whatever another vector is filled with, the one there is stays if that fails. -/
theorem renew_keeps (fill : Op (Vector α) Unit) :
    Leads (renew fill) host (fun _ _ => True) fun _ after => after.container = host.container := by
  unfold renew
  apply current_then
  rw [leads_bind, leads_build]
  exact (leads_trivial fill).mono (fun _ _ _ => trivial) fun _ _ _ => rfl

theorem clone_spares {items : List α} (holds : Holds host.container items) :
    Spares (slots α host.container.capacity) (clone host.container) host := by
  rw [clone_eq]
  exact spares_build (release_vacated .emptied) (refill_spares holds)

end Vector

section Flat
variable {κ ν : Type} [Ord κ] [Stored κ] [Stored ν]

namespace FlatMap
variable {host : Host (FlatMap κ ν)}

/-- The layout that a command asks for if it has to. -/
def Command.asks (map : FlatMap κ ν) : Command κ ν → Option Layout
  | .insert _ _ => slots (κ × ν) (Vector.doubled map.capacity)
  | .tryInsert _ _ => slots (κ × ν) (Vector.doubled map.capacity)
  | .renewFrom pairs => slots (κ × ν) (Vector.capacityFor pairs.length (⟨map.engine.fresh, #[]⟩ : FlatMap κ ν))
  | _ => none

theorem tryInsert_spares [BEq κ] (k : κ) (value : ν) :
    Spares (slots (κ × ν) (Vector.doubled host.container.capacity)) (tryInsert k value) host := by
  unfold tryInsert
  apply spares_reading
  dsimp only
  split
  · exact spares_pure _
  · exact spares_bind (Vector.tryInsert_spares _ _) fun _ _ => trivial

theorem renewFrom_spares [BEq κ] {pairs : List (κ × ν)} (counted : pairs.length ≤ maxCount) :
    Spares ((Command.renewFrom pairs : Command κ ν).asks host.container) (renewFrom pairs) host :=
  Vector.renew_spares (spares_bind (Vector.collect_spares _ _ counted) fun _ _ => trivial)

/-- Every command but the one that collects pairs, which does so if they can be counted. -/
theorem perform_spares [BEq κ] (command : Command κ ν)
    (counted : ∀ pairs, command = .renewFrom pairs → pairs.length ≤ maxCount) :
    Spares (command.asks host.container) command.perform host := by
  cases command with
  | insert k value => exact spares_bind (spares_orAbort (tryInsert_spares k value)) fun _ _ => trivial
  | tryInsert k value => exact spares_bind (tryInsert_spares k value) fun _ _ => trivial
  | setValue k value =>
    refine spares_map _ (spares_reading ?_)
    split
    · exact spares_pure _
    · exact trivial
  | erase k =>
    refine spares_map _ (spares_reading ?_)
    split
    · exact spares_bind (Vector.erase_spares _) fun _ _ => trivial
    · exact spares_pure _
  | eraseAt position => exact spares_map _ (Vector.erase_spares position)
  | remove k =>
    refine spares_map _ (spares_reading ?_)
    split
    · exact spares_map _ (Vector.remove_spares _)
    · exact spares_pure _
  | renewFrom pairs => exact spares_bind (renewFrom_spares (counted pairs rfl)) fun _ _ => trivial
  | find _ | get _ | lowerBound _ | upperBound _ | isEmpty | iterate | clear => exact trivial

end FlatMap

namespace FlatMultiMap
variable {host : Host (FlatMultiMap κ ν)}

/-- The layout that a command asks for if it has to. -/
def Command.asks (map : FlatMultiMap κ ν) : Command κ ν → Option Layout
  | .insert _ _ => slots (κ × ν) (Vector.doubled map.capacity)
  | .tryInsert _ _ => slots (κ × ν) (Vector.doubled map.capacity)
  | .renewFrom pairs => slots (κ × ν) (Vector.capacityFor pairs.length (⟨map.engine.fresh, #[]⟩ : FlatMap κ ν))
  | _ => none

theorem renewFrom_spares {pairs : List (κ × ν)} (counted : pairs.length ≤ maxCount) :
    Spares ((Command.renewFrom pairs : Command κ ν).asks host.container) (renewFrom pairs) host :=
  Vector.renew_spares (spares_bind (Vector.collect_spares _ _ counted) fun _ _ => trivial)

/-- Every command but the one that collects pairs, which does so if they can be counted. -/
theorem perform_spares [BEq ν] (command : Command κ ν)
    (counted : ∀ pairs, command = .renewFrom pairs → pairs.length ≤ maxCount) :
    Spares (command.asks host.container) command.perform host := by
  cases command with
  | insert k value => exact spares_map _ (spares_orAbort (spares_reading (Vector.tryInsert_spares _ _)))
  | tryInsert k value => exact spares_map _ (spares_reading (Vector.tryInsert_spares _ _))
  | findValue value start stop =>
    refine spares_map _ (spares_reading ?_)
    split
    · exact spares_pure _
    · exact .untouched rfl
  | erase k => exact spares_map _ (spares_reading (spares_bind (Vector.eraseRange_spares _ _) fun _ _ => trivial))
  | eraseAt position => exact spares_map _ (Vector.erase_spares position)
  | renewFrom pairs => exact spares_bind (renewFrom_spares (counted pairs rfl)) fun _ _ => trivial
  | find _ | count _ | equalRange _ | getAll _ | lowerBound _ | upperBound _ | isEmpty | iterate | clear =>
    exact trivial

end FlatMultiMap

end Flat

end Containers
