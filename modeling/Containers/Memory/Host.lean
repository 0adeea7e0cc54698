import Containers.Memory.Allocator
import Containers.Fault

/-! Operations on a container that draws on two allocators. An operation may
fail and still leave traces: the container and the allocators are kept in the
state in which the fault found them. -/
namespace Containers

/-- The two allocators of a run. -/
inductive AllocatorId where
  | a
  | b
deriving DecidableEq

/-- The allocators that the containers of a run draw on. -/
structure Pool where
  a : Allocator
  b : Allocator

namespace Pool

/-- One of the two allocators. -/
def get (pool : Pool) : AllocatorId → Allocator
  | .a => pool.a
  | .b => pool.b

/-- The pool with one allocator replaced. -/
def set (pool : Pool) (allocator : Allocator) : AllocatorId → Pool
  | .a => { pool with a := allocator }
  | .b => { pool with b := allocator }

/-- Asks one allocator for a block. -/
def allocate (id : AllocatorId) (layout : Layout) (pool : Pool) : Option Block × Pool :=
  let (answer, allocator) := (pool.get id).allocate layout
  (answer, pool.set allocator id)

/-- Hands a block to one allocator. -/
def free (id : AllocatorId) (block : Block) (pool : Pool) : Pool :=
  pool.set ((pool.get id).free block) id

end Pool

/-- A container beside the allocators it draws on. -/
structure Host (σ : Type) where
  container : σ
  pool : Pool

/-- An operation on a container of type `σ`. -/
abbrev Op (σ : Type) := EStateM Fault (Host σ)

/-- A container whose memory can be handed back. -/
class Container (σ : Type) where
  dispose : σ → Pool → Pool

namespace Op

/-- The container as it stands. -/
def current : Op σ σ :=
  fun host => .ok host.container host

/-- Puts another container in place; nothing is freed. -/
def become (container : σ) : Op σ Unit :=
  fun host => .ok () { host with container }

/-- Changes the container without touching the allocators. -/
def update (change : σ → σ) : Op σ Unit :=
  fun host => .ok () { host with container := change host.container }

/-- Reads from the container. -/
def look (read : σ → Except Fault β) : Op σ β :=
  fun host => match read host.container with
    | .ok answer => .ok answer host
    | .error fault => .error fault host

/-- Runs a step that works on the container alone. -/
def alone (step : EStateM Fault σ β) : Op σ β :=
  fun host => match step host.container with
    | .ok answer container => .ok answer { host with container }
    | .error fault container => .error fault { host with container }

/-- Runs an operation on a part of the container. -/
def part (read : σ → τ) (write : τ → σ → σ) (op : Op τ β) : Op σ β :=
  fun host => match op ⟨read host.container, host.pool⟩ with
    | .ok answer after => .ok answer ⟨write after.container host.container, after.pool⟩
    | .error fault after => .error fault ⟨write after.container host.container, after.pool⟩

/-- Ends with a broken precondition. -/
def fail (cause : Panic) : Op σ β :=
  fun host => .error (.panicked cause) host

/-- Goes on only if the precondition holds. -/
def require (condition : Prop) [Decidable condition] (cause : Panic) : Op σ Unit :=
  if condition then pure () else fail cause

/-- Asks an allocator for a block; a refusal is handed to the caller. -/
def request (id : AllocatorId) (layout : Layout) : Op σ Block :=
  fun host => match host.pool.allocate id layout with
    | (some block, pool) => .ok block { host with pool }
    | (none, pool) => .error (.refused layout) { host with pool }

/-- Changes the allocators without touching the container. -/
def settle (change : Pool → Pool) : Op σ Unit :=
  fun host => .ok () { host with pool := change host.pool }

/-- Treats a refusal as the end of the run. -/
def orAbort (op : Op σ β) : Op σ β :=
  fun host => match op host with
    | .ok answer after => .ok answer after
    | .error (.refused layout) after => .error (.aborted layout) after
    | .error fault after => .error fault after

/-- Makes another container beside the current one. If that fails, what was
made of it is handed back. -/
def build [Container τ] (fresh : τ) (op : Op τ Unit) : Op σ τ :=
  fun host => match op ⟨fresh, host.pool⟩ with
    | .ok _ made => .ok made.container { host with pool := made.pool }
    | .error fault made =>
      .error fault { host with pool := Container.dispose made.container made.pool }

/-- Puts a container that was made before in place of the current one, whose
memory is handed back. -/
def replace [Container σ] (made : σ) : Op σ Unit :=
  fun host => .ok () ⟨made, Container.dispose host.container host.pool⟩

end Op

end Containers
