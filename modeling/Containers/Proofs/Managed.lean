import Containers.Proofs.StorageLedger

/-! What an operation may do to the allocators. A container keeps its elements in one
buffer, and all that its operations do besides working on the container alone is to
move that buffer to another block, to hand it back, and to make another container
beside. The rules for these few dealings are stated here once; whatever holds of each
of them holds of every operation that is made of them. -/
namespace Containers

/-- The engine of the same kind that a container begins anew with. -/
inductive Engine.Vacated (engine : Engine) : Engine → Prop where
  | emptied : Vacated engine engine.emptied
  | fresh : Vacated engine engine.fresh

theorem Engine.Vacated.owned_eq {α : Type} [Stored α] {engine other : Engine} (vacated : engine.Vacated other)
    (id : AllocatorId) : other.owned α id = none := by
  cases vacated with
  | emptied => exact engine.owned_emptied id
  | fresh => exact engine.owned_fresh id

/-- A container that keeps everything in one buffer. -/
class Buffered (σ : Type) extends Holding σ where
  engine : σ → Engine
  owned_congr {one other : σ} (same : engine one = engine other) : Holding.owned one = Holding.owned other
  owned_vacated {container : σ} {old : Engine} (vacated : old.Vacated (engine container)) (id : AllocatorId) :
    Holding.owned container id = none
  dispose_frees (container : σ) :
    (∀ pool, Container.dispose container pool = pool) ∨
      ∃ id block, ∀ pool, Container.dispose container pool = pool.free id block

instance {α : Type} [Stored α] : Buffered (Storage α) where
  engine := Storage.engine
  owned_congr same := congrArg (Engine.owned α) same
  owned_vacated vacated id := vacated.owned_eq id
  dispose_frees storage := by
    obtain ⟨engine, items⟩ := storage
    change (∀ pool, engine.release α pool = pool) ∨ ∃ id block, ∀ pool, engine.release α pool = pool.free id block
    cases engine with
    | inline capacity => exact .inl fun _ => rfl
    | heap own capacity address =>
      by_cases empty : capacity = 0 ∨ elementSize α = 0
      · exact .inl fun pool => by rw [Engine.release, if_pos empty]
      · exact .inr ⟨_, _, fun pool => by rw [Engine.release, if_neg empty]⟩

/-- The container stays in the same buffer. -/
def Steady {σ β : Type} [Buffered σ] (step : EStateM Fault σ β) : Prop :=
  ∀ container, Leads step container
    (fun _ after => Buffered.engine after = Buffered.engine container)
    fun _ after => Buffered.engine after = Buffered.engine container

/-- Hands the buffer back and begins anew. -/
def Op.vacate {σ β : Type} [Container σ] (answer : σ → β) (anew : σ → σ) : Op σ β :=
  fun host => .ok (answer host.container) ⟨anew host.container, Container.dispose host.container host.pool⟩

/-- The operations whose dealings with the allocators are in order. -/
inductive Managed : {σ β : Type} → [Buffered σ] → Op σ β → Prop where
  /-- Works on the container alone, in its buffer. -/
  | alone {σ β : Type} [Buffered σ] {step : EStateM Fault σ β} (steady : Steady step) : Managed (Op.alone step)
  | bind {σ β γ : Type} [Buffered σ] {op : Op σ β} {next : β → Op σ γ} (first : Managed op)
      (rest : ∀ answer, Managed (next answer)) : Managed (op >>= next)
  | orAbort {σ β : Type} [Buffered σ] {op : Op σ β} (managed : Managed op) : Managed (Op.orAbort op)
  /-- Works on a part that lies in the buffer of the whole. -/
  | part {σ τ β : Type} [Buffered σ] [Buffered τ] {read : σ → τ} {write : τ → σ → σ} {op : Op τ β}
      (managed : Managed op)
      (reads : ∀ container, Holding.owned container = Holding.owned (read container) ∧
        Buffered.engine container = Buffered.engine (read container))
      (writes : ∀ part container, Holding.owned (write part container) = Holding.owned part ∧
        Buffered.engine (write part container) = Buffered.engine part) : Managed (Op.part read write op)
  | reallocate {α : Type} [Stored α] (count : Nat) : Managed (Storage.reallocate count : Op (Storage α) Unit)
  | reallocateDiscarding {α : Type} [Stored α] (count : Nat) :
      Managed (Storage.reallocateDiscarding count : Op (Storage α) Unit)
  | setAllocator {α : Type} [Stored α] (id : AllocatorId) : Managed (Storage.setAllocator id : Op (Storage α) Unit)
  | vacate {σ β : Type} [Buffered σ] (answer : σ → β) (anew : σ → σ)
      (vacated : ∀ container, (Buffered.engine container).Vacated (Buffered.engine (anew container))) :
      Managed (Op.vacate answer anew)
  /-- Makes a part beside the container, and with it the container that takes its place. -/
  | remake {σ τ : Type} [Buffered σ] [Buffered τ] {fresh : σ → τ} {fill : σ → Op τ Unit} {wrap : τ → σ}
      (fills : ∀ container, Managed (fill container))
      (vacated : ∀ container, (Buffered.engine container).Vacated (Buffered.engine (fresh container)))
      (wraps : ∀ part, Holding.owned (wrap part) = Holding.owned part ∧
        Buffered.engine (wrap part) = Buffered.engine part) :
      Managed (do
        let container ← Op.current
        let made ← Op.build (fresh container) (fill container)
        Op.replace (wrap made) : Op σ Unit)
  /-- Makes another container beside, looks at it and drops it. -/
  | trial {σ τ β : Type} [Buffered σ] [Buffered τ] {fresh : σ → τ} {fill : σ → Op τ Unit} {answer : σ → τ → β}
      (fills : ∀ container, Managed (fill container))
      (vacated : ∀ container, (Buffered.engine container).Vacated (Buffered.engine (fresh container))) :
      Managed (do
        let container ← Op.current
        let made ← Op.build (fresh container) (fill container)
        Op.settle (Container.dispose made)
        return answer container made : Op σ β)

section Rules
variable {σ τ β γ : Type} [Buffered σ] [Buffered τ]

theorem managed_pure (answer : β) : Managed (pure answer : Op σ β) := by
  have steady : Steady (pure answer : EStateM Fault σ β) := fun _ => rfl
  exact .alone steady

theorem managed_throw (fault : Fault) : Managed (throw fault : Op σ β) := by
  have steady : Steady (throw fault : EStateM Fault σ β) := fun _ => rfl
  exact .alone steady

theorem managed_fail (cause : Panic) : Managed (Op.fail cause : Op σ β) :=
  managed_throw (.panicked cause)

theorem managed_current : Managed (Op.current : Op σ σ) := by
  have steady : Steady (get : EStateM Fault σ σ) := fun _ => rfl
  exact .alone steady

/-- What is read of the container may decide how to go on. -/
theorem managed_reading {next : σ → Op σ β} (rest : ∀ container, Managed (next container)) :
    Managed (Op.current >>= next) :=
  .bind managed_current rest

theorem managed_look (read : σ → Except Fault β) : Managed (Op.look read) := by
  have reads : Op.look read = (do MonadExcept.ofExcept (read (← Op.current)) : Op σ β) := by
    funext host
    simp only [Op.look, bind, EStateM.bind, Op.current]
    cases read host.container <;> rfl
  rw [reads]
  apply managed_reading
  intro container
  cases read container with
  | ok answer => exact managed_pure answer
  | error fault => exact managed_throw fault

theorem managed_require (condition : Prop) [Decidable condition] (cause : Panic) :
    Managed (Op.require condition cause : Op σ Unit) := by
  unfold Op.require
  split
  · exact managed_pure ()
  · exact managed_fail cause

theorem managed_map (f : β → γ) {op : Op σ β} (managed : Managed op) : Managed (f <$> op) := by
  rw [map_eq_pure_bind]
  exact .bind managed fun answer => managed_pure (f answer)

theorem managed_update {change : σ → σ}
    (keeps : ∀ container, Buffered.engine (change container) = Buffered.engine container) :
    Managed (Op.update change) := by
  have steady : Steady (modify change : EStateM Fault σ Unit) := keeps
  exact .alone steady

theorem managed_forM {items : List β} {step : β → Op σ Unit} (each : ∀ item, Managed (step item)) :
    Managed (items.forM step) := by
  induction items with
  | nil => exact managed_pure ()
  | cons item rest ih => exact .bind (each item) fun _ => ih

end Rules

section Accounts
variable {σ τ β : Type} [Buffered σ] [Buffered τ] {start : Pool} {host : Host σ}

/-- A container that was handed back owns nothing. -/
theorem vacate_ledger {after : σ} (bare : ∀ id, Holding.owned after id = none) (ledger : Ledger start host) :
    Ledger start ⟨after, Container.dispose host.container host.pool⟩ := by
  intro id
  obtain ⟨continues, holds⟩ := ledger.close id
  refine ⟨continues, ?_⟩
  rw [bare id]
  exact holds

/-- Every operation whose dealings are in order keeps the ledger. -/
theorem Managed.accounts {op : Op σ β} (managed : Managed op) : Accounts op := by
  induction managed with
  | alone steady =>
    refine accounts_alone fun container => (steady container).mono ?_ ?_
    · exact fun _ _ same => Buffered.owned_congr same
    · exact fun _ _ same => Buffered.owned_congr same
  | bind _ _ first rest => exact accounts_bind first rest
  | orAbort _ accounts => exact accounts_orAbort accounts
  | part _ reads writes accounts =>
    exact accounts_part accounts (fun container => (reads container).1) fun part container =>
      (writes part container).1
  | reallocate count => exact Storage.accounts_reallocate count
  | reallocateDiscarding count => exact Storage.accounts_reallocateDiscarding count
  | setAllocator id => exact Storage.accounts_setAllocator id
  | vacate answer anew vacated =>
    intro start host ledger
    exact vacate_ledger (Buffered.owned_vacated (vacated host.container)) ledger
  | remake _ vacated wraps fills =>
    refine accounts_reading fun container => ?_
    apply accounts_making (makes_build (fills container) (Buffered.owned_vacated (vacated container)))
    intro made start host beside
    rw [← (wraps made).1] at beside
    exact replace_ledger beside
  | trial _ vacated fills =>
    refine accounts_reading fun container => ?_
    apply accounts_making (makes_build (fills container) (Buffered.owned_vacated (vacated container)))
    intro made start host beside
    exact drop_ledger beside

end Accounts

/-- What requests and frees make of a pool. -/
inductive Pool.Dealt (start : Pool) : Pool → Prop where
  | start : Dealt start start
  | allocated {pool : Pool} (id : AllocatorId) (layout : Layout) (before : Dealt start pool) :
      Dealt start (pool.allocate id layout).2
  | freed {pool : Pool} (id : AllocatorId) (block : Block) (before : Dealt start pool) :
      Dealt start (pool.free id block)

theorem Pool.Dealt.trans {start middle later : Pool} (first : start.Dealt middle) (second : middle.Dealt later) :
    start.Dealt later := by
  induction second with
  | start => exact first
  | allocated id layout _ ih => exact .allocated id layout ih
  | freed id block _ ih => exact .freed id block ih

section Dealings
variable {σ β γ : Type}

/-- However the operation ends, it only requested and freed blocks. -/
def Deals (op : Op σ β) : Prop :=
  ∀ host, Leads op host (fun _ after => host.pool.Dealt after.pool) fun _ after => host.pool.Dealt after.pool

theorem deals_bind {op : Op σ β} {next : β → Op σ γ} (first : Deals op) (rest : ∀ answer, Deals (next answer)) :
    Deals (op >>= next) := by
  intro host
  rw [leads_bind]
  refine (first host).mono (fun answer middle dealt => ?_) fun _ _ dealt => dealt
  exact (rest answer middle).mono (fun _ _ dealt' => dealt.trans dealt') fun _ _ dealt' => dealt.trans dealt'

theorem deals_acquire {α : Type} [Stored α] (id : AllocatorId) (count : Nat) :
    Deals (Storage.acquire α id count : Op σ Nat) := by
  intro host
  unfold Storage.acquire
  rw [leads_bind, leads_require]
  split
  · split
    · exact .start
    · rw [leads_bind, leads_request]
      have dealt : host.pool.Dealt (host.pool.allocate id ((Stored.layout α).array count)).2 := .allocated id _ .start
      rcases answered : host.pool.allocate id ((Stored.layout α).array count) with ⟨answer | block, pool⟩
      · rwa [answered] at dealt
      · rwa [answered] at dealt
  · exact .start

variable [Buffered σ]

theorem dealt_dispose (container : σ) (pool : Pool) : pool.Dealt (Container.dispose container pool) := by
  rcases Buffered.dispose_frees container with keeps | ⟨id, block, frees⟩
  · rw [keeps]
    exact .start
  · rw [frees]
    exact .freed id block .start

theorem deals_reallocate {α : Type} [Stored α] (count : Nat) :
    Deals (Storage.reallocate count : Op (Storage α) Unit) := by
  intro host
  unfold Storage.reallocate
  apply current_then
  split
  · exact .start
  · rw [leads_bind]
    refine (deals_acquire _ count host).mono (fun address after dealt => ?_) fun _ _ dealt => dealt
    exact dealt.trans (dealt_dispose host.container after.pool)

theorem deals_reallocateDiscarding {α : Type} [Stored α] (count : Nat) :
    Deals (Storage.reallocateDiscarding count : Op (Storage α) Unit) := by
  intro host
  unfold Storage.reallocateDiscarding
  apply current_then
  split
  · exact .start
  · rw [leads_bind, leads_require]
    split
    · rw [leads_bind]
      refine (deals_acquire _ count host).mono (fun address after dealt => ?_) fun _ _ dealt => dealt
      exact dealt.trans (dealt_dispose host.container after.pool)
    · exact .start

/-- No operation whose dealings are in order reaches the allocators in any other way. -/
theorem Managed.deals {op : Op σ β} (managed : Managed op) : Deals op := by
  induction managed with
  | alone steady =>
    intro host
    rw [leads_alone]
    exact (leads_trivial _).mono (fun _ _ _ => .start) fun _ _ _ => .start
  | bind _ _ first rest => exact deals_bind first rest
  | orAbort _ deals =>
    intro host
    rw [leads_orAbort]
    exact deals host
  | part _ _ _ deals =>
    intro host
    rw [leads_part]
    exact deals _
  | reallocate count => exact deals_reallocate count
  | reallocateDiscarding count => exact deals_reallocateDiscarding count
  | setAllocator id => exact fun host => .start
  | vacate answer anew vacated => exact fun host => dealt_dispose host.container host.pool
  | remake _ _ _ fills =>
    intro host
    apply current_then
    rw [leads_bind, leads_build]
    refine (fills host.container _).mono (fun _ made dealt => ?_) fun _ made dealt => ?_
    · exact dealt.trans (dealt_dispose host.container made.pool)
    · exact dealt.trans (dealt_dispose made.container made.pool)
  | trial _ _ fills =>
    intro host
    apply current_then
    rw [leads_bind, leads_build]
    refine (fills host.container _).mono (fun _ made dealt => ?_) fun _ made dealt => ?_
    · exact dealt.trans (dealt_dispose made.container made.pool)
    · exact dealt.trans (dealt_dispose made.container made.pool)

end Dealings

/-- Slots that are not on the heap never get there. -/
theorem Managed.inline {σ β : Type} [Buffered σ] {op : Op σ β} (managed : Managed op) {host : Host σ} {capacity : Nat}
    (fixed : Buffered.engine host.container = .inline capacity) :
    Leads op host (fun _ after => Buffered.engine after.container = .inline capacity)
      fun _ after => Buffered.engine after.container = .inline capacity := by
  have vacant : ∀ {old anew : Engine}, old.Vacated anew → old = .inline capacity → anew = .inline capacity := by
    rintro old anew vacated rfl
    cases vacated with
    | emptied => rfl
    | fresh => rfl
  induction managed with
  | alone steady =>
    rw [leads_alone]
    exact (steady host.container).mono (fun _ _ same => same.trans fixed) fun _ _ same => same.trans fixed
  | bind _ _ first rest =>
    rw [leads_bind]
    exact (first fixed).mono (fun answer _ kept => rest answer kept) fun _ _ kept => kept
  | orAbort _ keeps =>
    rw [leads_orAbort]
    exact keeps fixed
  | part _ reads writes keeps =>
    rw [leads_part]
    refine (keeps ((reads host.container).2.symm.trans fixed)).mono ?_ ?_
    · exact fun _ after kept => (writes after.container host.container).2.trans kept
    · exact fun _ after kept => (writes after.container host.container).2.trans kept
  | reallocate count =>
    have inline : host.container.engine = .inline capacity := fixed
    unfold Storage.reallocate
    apply current_then
    rw [inline]
    exact fixed
  | reallocateDiscarding count =>
    have inline : host.container.engine = .inline capacity := fixed
    unfold Storage.reallocateDiscarding
    apply current_then
    rw [inline]
    exact fixed
  | setAllocator id =>
    obtain ⟨⟨engine, items⟩, pool⟩ := host
    obtain rfl : engine = .inline capacity := fixed
    exact rfl
  | vacate answer anew vacated => exact vacant (vacated host.container) fixed
  | remake _ vacated wraps fills =>
    apply current_then
    rw [leads_bind, leads_build]
    have begun := vacant (vacated host.container) fixed
    exact (fills host.container begun).mono (fun _ made kept => (wraps made.container).2.trans kept) fun _ _ _ => fixed
  | trial _ _ fills =>
    apply current_then
    rw [leads_bind, leads_build]
    exact (leads_trivial _).mono (fun _ _ _ => fixed) fun _ _ _ => fixed

end Containers
