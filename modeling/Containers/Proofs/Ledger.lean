import Containers.Proofs.Outcome

/-! Which blocks a container owes to its allocators, read off their histories. The
ledger of a container says that every free since the run began named a block that
was outstanding on that allocator, and that what is outstanding beyond what was so
at the beginning is the one block that the container owns, if it owns any. An
operation accounts for its blocks if it keeps the ledger however it ends; the rules
here carry this from the statements of a program to the program. -/
namespace Containers

namespace History

/-- The blocks granted and not yet freed, the latest first. -/
def outstanding : History → List Block
  | [] => []
  | .granted block :: earlier => block :: outstanding earlier
  | .refused _ :: earlier => outstanding earlier
  | .freed block :: earlier => (outstanding earlier).erase block

/-- The later history went on from `start`, and every free on the way named a block
that was outstanding then, with the address and the layout it was granted with. -/
inductive Continues (start : History) : History → Prop where
  | start : Continues start start
  | granted {later : History} (block : Block) (before : Continues start later) :
      Continues start (.granted block :: later)
  | refused {later : History} (layout : Layout) (before : Continues start later) :
      Continues start (.refused layout :: later)
  | freed {later : History} {block : Block} (outstanding : block ∈ later.outstanding)
      (before : Continues start later) : Continues start (.freed block :: later)

/-- The history after a block was granted, if there is one. -/
def grant? (history : History) : Option Block → History
  | none => history
  | some block => .granted block :: history

/-- The history after a block was freed, if there is one. -/
def free? (history : History) : Option Block → History
  | none => history
  | some block => .freed block :: history

variable {start history : History} {made owned : Option Block} {others : List Block}

theorem Continues.trans {middle later : History} (first : start.Continues middle)
    (second : middle.Continues later) : start.Continues later := by
  induction second with
  | start => exact first
  | granted block _ ih => exact .granted block ih
  | refused layout _ ih => exact .refused layout ih
  | freed outstanding _ ih => exact .freed outstanding ih

theorem Continues.grant? (before : Continues start history) : Continues start (history.grant? made) := by
  cases made with
  | none => exact before
  | some block => exact .granted block before

theorem outstanding_grant? : (history.grant? made).outstanding = made.toList ++ history.outstanding := by
  cases made with
  | none => rfl
  | some block => rfl

theorem Continues.free? (before : Continues start history)
    (holds : history.outstanding = made.toList ++ (owned.toList ++ others)) :
    Continues start (history.free? owned) := by
  cases owned with
  | none => exact before
  | some block =>
    apply Continues.freed _ before
    rw [holds]
    simp

/-- Freeing a block takes it out, also from below one that was granted since. -/
theorem outstanding_free? (holds : history.outstanding = made.toList ++ (owned.toList ++ others)) :
    (history.free? owned).outstanding = made.toList ++ others := by
  cases owned with
  | none => exact holds
  | some block =>
    rw [free?, outstanding, holds]
    cases made with
    | none => simp
    | some newer =>
      by_cases same : newer = block
      · simp [same]
      · rw [Option.toList_some, List.singleton_append, List.erase_cons_tail (by simpa using same)]
        simp

/-- Freeing what is owned leaves what others own. -/
theorem Continues.settle (before : Continues start history)
    (holds : history.outstanding = owned.toList ++ others) :
    Continues start (history.free? owned) ∧ (history.free? owned).outstanding = others := by
  have under : history.outstanding = (none : Option Block).toList ++ (owned.toList ++ others) := holds
  exact ⟨before.free? under, outstanding_free? under⟩

end History

theorem Pool.get_set (pool : Pool) (allocator : Allocator) (id other : AllocatorId) :
    (pool.set allocator id).get other = if other = id then allocator else pool.get other := by
  cases id <;> cases other <;> rfl

/-- The history of the other allocator does not change. -/
theorem Pool.history_set (pool : Pool) (allocator : Allocator) (id other : AllocatorId) :
    ((pool.set allocator id).get other).history =
      if other = id then allocator.history else (pool.get other).history := by
  rw [pool.get_set]
  split
  · rfl
  · rfl

/-- A container that owns at most one block of each allocator and hands back exactly
the blocks that it owns. -/
class Holding (σ : Type) extends Container σ where
  owned : σ → AllocatorId → Option Block
  dispose_history (container : σ) (pool : Pool) (id : AllocatorId) :
    ((dispose container pool).get id).history = (pool.get id).history.free? (owned container id)

section Ledgers
variable {σ τ : Type} [Holding σ] [Holding τ] {start : Pool} {host : Host σ}

/-- Since `start` only outstanding blocks were freed, and beyond those that were
outstanding then there is only the block that the container owns. -/
def Ledger (start : Pool) (host : Host σ) : Prop :=
  ∀ id, (start.get id).history.Continues (host.pool.get id).history ∧
    (host.pool.get id).history.outstanding =
      (Holding.owned host.container id).toList ++ (start.get id).history.outstanding

/-- The same while another container, made since, owns these blocks. -/
def Beside (start : Pool) (made : AllocatorId → Option Block) (host : Host σ) : Prop :=
  ∀ id, (start.get id).history.Continues (host.pool.get id).history ∧
    (host.pool.get id).history.outstanding =
      (made id).toList ++ ((Holding.owned host.container id).toList ++ (start.get id).history.outstanding)

/-- Since `start` only outstanding blocks were freed, and the same blocks are
outstanding as then. -/
def Settled (start pool : Pool) : Prop :=
  ∀ id, (start.get id).history.Continues (pool.get id).history ∧
    (pool.get id).history.outstanding = (start.get id).history.outstanding

theorem ledger_start {container : σ} (bare : ∀ id, Holding.owned container id = none) (pool : Pool) :
    Ledger pool ⟨container, pool⟩ := by
  intro id
  refine ⟨.start, ?_⟩
  simp [bare]

/-- Dropping the container leaves what was outstanding at the beginning. -/
theorem Ledger.close (ledger : Ledger start host) : Settled start (Session.close host) := by
  intro id
  obtain ⟨continues, holds⟩ := ledger id
  rw [Session.close, Holding.dispose_history]
  exact continues.settle holds

end Ledgers

section Operations
variable {σ τ β γ : Type} [Holding σ] [Holding τ] {start : Pool} {host : Host σ}

/-- However the operation ends, it keeps the ledger. -/
def Accounts (op : Op σ β) : Prop :=
  ∀ (start : Pool) (host : Host σ), Ledger start host →
    Leads op host (fun _ after => Ledger start after) fun _ after => Ledger start after

/-- Reading the container goes on from the same ledger. -/
theorem accounts_reading {next : σ → Op σ β} (rest : ∀ container, Accounts (next container)) :
    Accounts (Op.current >>= next) := by
  intro start host ledger
  exact current_then (rest host.container start host ledger)

theorem accounts_bind {op : Op σ β} {next : β → Op σ γ} (first : Accounts op)
    (rest : ∀ answer, Accounts (next answer)) : Accounts (op >>= next) := by
  intro start host ledger
  rw [leads_bind]
  apply (first start host ledger).mono
  · intro answer after ledger'
    exact rest answer start after ledger'
  · intro fault after ledger'
    exact ledger'

theorem accounts_orAbort {op : Op σ β} (accounts : Accounts op) : Accounts (Op.orAbort op) := by
  intro start host ledger
  rw [leads_orAbort]
  exact accounts start host ledger

theorem Ledger.congr {after : Host σ} (ledger : Ledger start host)
    (owned : Holding.owned after.container = Holding.owned host.container) (pool : after.pool = host.pool) :
    Ledger start after := by
  intro id
  rw [owned, pool]
  exact ledger id

theorem accounts_update {change : σ → σ}
    (keeps : ∀ container, Holding.owned (change container) = Holding.owned container) :
    Accounts (Op.update change) := by
  intro start host ledger
  exact ledger.congr (keeps host.container) rfl

theorem accounts_alone {step : EStateM Fault σ β}
    (keeps : ∀ container, Leads step container
      (fun _ after => Holding.owned after = Holding.owned container)
      fun _ after => Holding.owned after = Holding.owned container) : Accounts (Op.alone step) := by
  intro start host ledger
  rw [leads_alone]
  apply (keeps host.container).mono
  · intro answer container same
    exact ledger.congr same rfl
  · intro fault container same
    exact ledger.congr same rfl

/-- A part that owns all that the whole owns accounts for it. -/
theorem accounts_part {read : σ → τ} {write : τ → σ → σ} {op : Op τ β} (accounts : Accounts op)
    (reads : ∀ container, Holding.owned container = Holding.owned (read container))
    (writes : ∀ part container, Holding.owned (write part container) = Holding.owned part) :
    Accounts (Op.part read write op) := by
  intro start host ledger
  have inner : Ledger start (⟨read host.container, host.pool⟩ : Host τ) := by
    intro id
    rw [← reads host.container]
    exact ledger id
  have back : ∀ after : Host τ, Ledger start after →
      Ledger start (⟨write after.container host.container, after.pool⟩ : Host σ) := by
    intro after ledger' id
    rw [writes after.container host.container]
    exact ledger' id
  rw [leads_part]
  apply (accounts start _ inner).mono
  · intro answer after ledger'
    exact back after ledger'
  · intro fault after ledger'
    exact back after ledger'

/-- What the operation makes beside the container owns its blocks beside it; if the
making fails, no such block is left. -/
def Makes (op : Op σ τ) : Prop :=
  ∀ (start : Pool) (host : Host σ), Ledger start host →
    Leads op host (fun made after => Beside start (Holding.owned made) after) fun _ after => Ledger start after

theorem makes_build {fresh : τ} {op : Op τ Unit} (accounts : Accounts op)
    (bare : ∀ id, Holding.owned fresh id = none) : Makes (Op.build fresh op : Op σ τ) := by
  intro start host ledger
  rw [leads_build]
  apply (accounts host.pool ⟨fresh, host.pool⟩ (ledger_start bare host.pool)).mono
  · intro _ made ledger' id
    obtain ⟨continues, holds⟩ := ledger id
    obtain ⟨continues', holds'⟩ := ledger' id
    constructor
    · exact continues.trans continues'
    · rw [holds', holds]
  · intro fault made ledger' id
    obtain ⟨continues, holds⟩ := ledger id
    obtain ⟨continues', holds'⟩ := ledger'.close id
    exact ⟨continues.trans continues', holds'.trans holds⟩

/-- What was made is left to the rest, which has to put it somewhere. -/
theorem accounts_making {make : Op σ τ} {next : τ → Op σ β} (makes : Makes make)
    (rest : ∀ made start host, Beside start (Holding.owned made) host →
      Leads (next made) host (fun _ after => Ledger start after) fun _ after => Ledger start after) :
    Accounts (make >>= next) := by
  intro start host ledger
  rw [leads_bind]
  apply (makes start host ledger).mono
  · intro made after beside
    exact rest made start after beside
  · intro fault after ledger'
    exact ledger'

/-- Putting what was made in place of the container hands the old blocks back. -/
theorem replace_ledger {made : σ} (beside : Beside start (Holding.owned made) host) :
    Ledger start ⟨made, Container.dispose host.container host.pool⟩ := by
  intro id
  obtain ⟨continues, holds⟩ := beside id
  rw [Holding.dispose_history]
  exact ⟨continues.free? holds, History.outstanding_free? holds⟩

/-- Dropping what was made leaves the container with its own blocks. -/
theorem drop_ledger {made : τ} (beside : Beside start (Holding.owned made) host) :
    Ledger start ⟨host.container, Container.dispose made host.pool⟩ := by
  intro id
  obtain ⟨continues, holds⟩ := beside id
  rw [Holding.dispose_history]
  exact continues.settle holds

end Operations

end Containers
