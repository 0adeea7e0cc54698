import Containers.Memory.Host

/-! Runs of commands on one container. Every command has an outcome, and the
run goes on after a failed one from the state that it left, except when a
refusal ended the run. -/
namespace Containers

/-- The outcome of one command, and what it left. -/
structure Step (σ ρ : Type) where
  outcome : Except Fault ρ
  after : Host σ

/-- Whether the run goes on behind this step. -/
def Step.ends (step : Step σ ρ) : Bool :=
  match step.outcome with
  | .error (.aborted _) => true
  | _ => false

/-- Performs one command. -/
def Op.step (op : Op σ ρ) (host : Host σ) : Step σ ρ :=
  match op host with
  | .ok answer after => ⟨.ok answer, after⟩
  | .error fault after => ⟨.error fault, after⟩

namespace Session

/-- The steps of a run. -/
def run (perform : κ → Op σ ρ) : List κ → Host σ → List (Step σ ρ)
  | [], _ => []
  | command :: rest, host =>
    let step := (perform command).step host
    if step.ends then [step] else step :: run perform rest step.after

/-- Where the run ended, or nothing if a refusal ended it. -/
def last? (start : Host σ) (steps : List (Step σ ρ)) : Option (Host σ) :=
  match steps.getLast? with
  | none => some start
  | some step => if step.ends then none else some step.after

/-- The allocators after the container was dropped as well. -/
def close [Container σ] (host : Host σ) : Pool :=
  Container.dispose host.container host.pool

end Session

/-- A command of a container, or a question to the allocators. -/
inductive Request (κ : Type) where
  | perform (command : κ)
  | tally

/-- The answer to a request. -/
inductive Response (ρ : Type) where
  | answer (reply : ρ)
  | tallies (a b : Tally)

/-- Both tallies of a pool. -/
def Pool.tallies (pool : Pool) : Tally × Tally :=
  (pool.a.tally, pool.b.tally)

/-- Performs a command or reads the tallies. -/
def Request.run (perform : κ → Op σ ρ) : Request κ → Op σ (Response ρ)
  | .perform command => Response.answer <$> perform command
  | .tally => fun host =>
    .ok (.tallies host.pool.tallies.1 host.pool.tallies.2) host

end Containers
