import Containers.Session

/-! What a computation does from a given state, said by a condition on what it
answers and leaves and another one on its fault and what the fault leaves. The
equations here compute these conditions backwards through a program, so that a
proof follows the program's text from the first statement to the last. -/
namespace Containers

section Conditions
variable {ε σ β γ : Type} {done : β → σ → Prop} {failed : ε → σ → Prop} {state : σ}

/-- From this state the computation either answers and `done` holds of the
answer and the state it leaves, or it fails and `failed` holds of the fault. -/
def Leads (op : EStateM ε σ β) (state : σ) (done : β → σ → Prop) (failed : ε → σ → Prop) : Prop :=
  match op state with
  | .ok answer after => done answer after
  | .error fault after => failed fault after

/-- The computation cannot fail from this state. -/
abbrev Sure (op : EStateM ε σ β) (state : σ) (done : β → σ → Prop) : Prop :=
  Leads op state done fun _ _ => False

theorem leads_modify {done : Unit → σ → Prop} (change : σ → σ) :
    Leads (modify change : EStateM ε σ Unit) state done failed ↔ done () (change state) := Iff.rfl

theorem leads_bind {done : γ → σ → Prop} (op : EStateM ε σ β) (next : β → EStateM ε σ γ) :
    Leads (op >>= next) state done failed ↔
      Leads op state (fun answer after => Leads (next answer) after done failed) failed := by
  simp only [Leads, bind, EStateM.bind]
  cases op state <;> rfl

theorem leads_map {done : γ → σ → Prop} (f : β → γ) (op : EStateM ε σ β) :
    Leads (f <$> op) state done failed ↔
      Leads op state (fun answer after => done (f answer) after) failed := by
  simp only [Leads, Functor.map, EStateM.map]
  cases op state <;> rfl

theorem Leads.mono {op : EStateM ε σ β} {done' : β → σ → Prop} {failed' : ε → σ → Prop}
    (held : Leads op state done failed)
    (finish : ∀ answer after, done answer after → done' answer after)
    (fails : ∀ fault after, failed fault after → failed' fault after) :
    Leads op state done' failed' := by
  simp only [Leads] at held ⊢
  cases ran : op state with
  | ok answer after => rw [ran] at held; exact finish answer after held
  | error fault after => rw [ran] at held; exact fails fault after held

/-- What a sure computation leaves is all that matters to the rest. -/
theorem Leads.weaken {op : EStateM ε σ β} {done' : β → σ → Prop} (held : Sure op state done)
    (finish : ∀ answer after, done answer after → done' answer after) :
    Leads op state done' failed :=
  held.mono finish fun _ _ impossible => impossible.elim

theorem Leads.and {op : EStateM ε σ β} {done' : β → σ → Prop} {failed' : ε → σ → Prop}
    (held : Leads op state done failed) (also : Leads op state done' failed') :
    Leads op state (fun answer after => done answer after ∧ done' answer after)
      fun fault after => failed fault after ∧ failed' fault after := by
  simp only [Leads] at held also ⊢
  cases ran : op state with
  | ok answer after =>
    rw [ran] at held also
    exact ⟨held, also⟩
  | error fault after =>
    rw [ran] at held also
    exact ⟨held, also⟩

/-- What a computation leads to is what it runs to. -/
theorem Leads.exactly {op : EStateM ε σ β} (held : Leads op state done failed) :
    Leads op state (fun answer after => op state = .ok answer after ∧ done answer after)
      fun fault after => op state = .error fault after ∧ failed fault after := by
  simp only [Leads] at held ⊢
  cases ran : op state with
  | ok answer after => rw [ran] at held; exact ⟨rfl, held⟩
  | error fault after => rw [ran] at held; exact ⟨rfl, held⟩

/-- A sure computation answers. -/
theorem Leads.answers {op : EStateM ε σ β} (held : Sure op state done) :
    ∃ answer after, op state = .ok answer after ∧ done answer after := by
  simp only [Leads] at held
  cases ran : op state with
  | ok answer after =>
    rw [ran] at held
    exact ⟨answer, after, rfl, held⟩
  | error fault after =>
    rw [ran] at held
    exact held.elim

/-- What a computation leads to holds of its answer. -/
theorem Leads.of_ok {op : EStateM ε σ β} {answer : β} {after : σ} (held : Leads op state done failed)
    (ran : op state = .ok answer after) : done answer after := by
  rwa [Leads, ran] at held

/-- A computation that answered is sure to answer that. -/
theorem sure_of_ok {op : EStateM ε σ β} {answer : β} {after : σ} (ran : op state = .ok answer after) :
    Sure op state fun answer' after' => answer' = answer ∧ after' = after := by
  simp only [Leads, ran, and_self]

theorem Leads.eq_ok {op : EStateM ε σ β} {answer : β} {after : σ}
    (held : Sure op state fun answer' after' => answer' = answer ∧ after' = after) :
    op state = .ok answer after := by
  obtain ⟨_, _, ran, rfl, rfl⟩ := held.answers
  exact ran

/-- A sure first step followed by the rest from whatever it leaves. -/
theorem Leads.andThen {done' : γ → σ → Prop} {op : EStateM ε σ β} {next : β → EStateM ε σ γ}
    (first : Sure op state done)
    (rest : ∀ answer after, done answer after → Leads (next answer) after done' failed) :
    Leads (op >>= next) state done' failed :=
  (leads_bind op next).mpr (first.weaken rest)

/-- Nothing is asked of a computation whose end does not matter. -/
theorem leads_trivial (op : EStateM ε σ β) : Leads op state (fun _ _ => True) fun _ _ => True := by
  simp only [Leads]
  cases op state <;> trivial

/-- A computation for every item, folded over what the items do to a reference. It ends at
the first item for which it fails, with those in front of it done. -/
theorem forM_stops {ρ : Type} (related : σ → ρ → Prop) (next : ρ → β → ρ) {step : β → EStateM ε σ Unit}
    {stops : β → σ → ε → σ → Prop}
    (each : ∀ item state reference, related state reference →
      Leads (step item) state (fun _ after => related after (next reference item)) (stops item state))
    (items : List β) {reference : ρ} (initial : related state reference) :
    Leads (items.forM step) state (fun _ after => related after (items.foldl next reference))
      fun fault after => ∃ count item middle, items[count]? = some item ∧
        (items.take count).forM step state = .ok () middle ∧
        related middle ((items.take count).foldl next reference) ∧ stops item middle fault after := by
  induction items generalizing state reference with
  | nil => exact initial
  | cons item rest ih =>
    apply (leads_bind (step item) fun _ => rest.forM step).mpr
    apply (Leads.exactly (each item state reference initial)).mono
    · rintro _ after ⟨ran, kept⟩
      apply (ih kept).mono
      · exact fun _ _ done => done
      · rintro fault last ⟨count, other, middle, found, reached, relates, stopped⟩
        refine ⟨count + 1, other, middle, found, ?_, relates, stopped⟩
        change (do step item; (rest.take count).forM step : EStateM ε σ Unit) state = .ok () middle
        simp only [bind, EStateM.bind, ran]
        exact reached
    · rintro fault after ⟨-, stopped⟩
      exact ⟨0, item, state, rfl, rfl, initial, stopped⟩

/-- As before, where it does not matter which item it fails for. -/
theorem forM_leads {ρ : Type} (related : σ → ρ → Prop) (next : ρ → β → ρ) {step : β → EStateM ε σ Unit}
    (each : ∀ item state reference, related state reference →
      Leads (step item) state (fun _ after => related after (next reference item)) failed)
    (items : List β) {reference : ρ} (initial : related state reference) :
    Leads (items.forM step) state (fun _ after => related after (items.foldl next reference)) failed := by
  apply (forM_stops related next each items initial).mono
  · exact fun _ _ done => done
  · rintro fault after ⟨count, item, middle, -, -, -, fails⟩
    exact fails

/-- Reading the state goes on from the same state. -/
theorem get_then {next : σ → EStateM ε σ β} (rest : Leads (next state) state done failed) :
    Leads (get >>= next) state done failed := rest

end Conditions

section Operations
variable {σ τ β γ κ ρ : Type} {host : Host σ} {done : β → Host σ → Prop}
  {failed : Fault → Host σ → Prop}

/-- Looking at the container goes on from the same host. -/
theorem current_then {next : σ → Op σ β} (rest : Leads (next host.container) host done failed) :
    Leads (Op.current >>= next) host done failed := rest

theorem leads_update {done : Unit → Host σ → Prop} (change : σ → σ) :
    Leads (Op.update change) host done failed ↔
      done () { host with container := change host.container } := Iff.rfl

theorem leads_replace [Container σ] {done : Unit → Host σ → Prop} (made : σ) :
    Leads (Op.replace made) host done failed ↔
      done () ⟨made, Container.dispose host.container host.pool⟩ := Iff.rfl

theorem leads_require {done : Unit → Host σ → Prop} (condition : Prop) [Decidable condition]
    (cause : Panic) :
    Leads (Op.require condition cause) host done failed ↔
      if condition then done () host else failed (.panicked cause) host := by
  unfold Op.require
  split <;> rfl

theorem leads_look {read : σ → Except Fault β} {answer : β}
    (reading : read host.container = .ok answer) :
    Leads (Op.look read) host done failed ↔ done answer host := by
  simp only [Leads, Op.look, reading]

/-- Whatever is read and however that ends, everything stays as it is. -/
theorem look_leads {read : σ → Except Fault β} (answers : ∀ answer, done answer host)
    (fails : ∀ fault, failed fault host) : Leads (Op.look read) host done failed := by
  simp only [Leads, Op.look]
  cases read host.container with
  | ok answer => exact answers answer
  | error fault => exact fails fault

/-- A read that succeeds goes on with what it read. -/
theorem read_then {b : β} {done : γ → Host σ → Prop} {read : σ → Except Fault β} {next : β → Op σ γ}
    (reading : read host.container = .ok b) (rest : Leads (next b) host done failed) :
    Leads (Op.look read >>= next) host done failed := by
  rw [leads_bind]
  exact (leads_look reading).mpr rest

/-- A step on the container alone leaves the allocators as they were. -/
theorem leads_alone (step : EStateM Fault σ β) :
    Leads (Op.alone step) host done failed ↔
      Leads step host.container (fun answer container => done answer { host with container })
        (fun fault container => failed fault { host with container }) := by
  simp only [Leads, Op.alone]
  cases step host.container <;> rfl

/-- A sure step on the container goes on from whatever it leaves there. -/
theorem alone_then {step : EStateM Fault σ β} {next : β → Op σ γ} {left : β → σ → Prop}
    {done : γ → Host σ → Prop} (first : Sure step host.container left)
    (rest : ∀ answer container, left answer container →
      Leads (next answer) { host with container } done failed) :
    Leads (Op.alone step >>= next) host done failed := by
  rw [leads_bind, leads_alone]
  exact first.weaken rest

theorem leads_part (read : σ → τ) (write : τ → σ → σ) (op : Op τ β) :
    Leads (Op.part read write op) host done failed ↔
      Leads op ⟨read host.container, host.pool⟩
        (fun answer after => done answer ⟨write after.container host.container, after.pool⟩)
        (fun fault after => failed fault ⟨write after.container host.container, after.pool⟩) := by
  simp only [Leads, Op.part]
  cases op ⟨read host.container, host.pool⟩ <;> rfl

theorem leads_request {done : Block → Host σ → Prop} (id : AllocatorId) (layout : Layout) :
    Leads (Op.request id layout) host done failed ↔
      match host.pool.allocate id layout with
      | (some block, pool) => done block { host with pool }
      | (none, pool) => failed (.refused layout) { host with pool } := by
  simp only [Leads, Op.request]
  rcases host.pool.allocate id layout with ⟨answer | block, pool⟩ <;> rfl

/-- The fault that stands for a refusal in the operations that do not return it. -/
def Fault.abort : Fault → Fault
  | .refused layout => .aborted layout
  | fault => fault

theorem leads_orAbort (op : Op σ β) :
    Leads (Op.orAbort op) host done failed ↔
      Leads op host done (fun fault after => failed fault.abort after) := by
  simp only [Leads, Op.orAbort]
  cases op host with
  | ok answer after => rfl
  | error fault after => cases fault <;> rfl

/-- What was made beside the container is answered, or handed back if the
making failed; the container itself is not touched either way. -/
theorem leads_build [Container τ] {done : τ → Host σ → Prop} (fresh : τ) (op : Op τ Unit) :
    Leads (Op.build fresh op) host done failed ↔
      Leads op ⟨fresh, host.pool⟩
        (fun _ made => done made.container { host with pool := made.pool })
        (fun fault made => failed fault
          { host with pool := Container.dispose made.container made.pool }) := by
  simp only [Leads, Op.build]
  cases op ⟨fresh, host.pool⟩ <;> rfl

/-- What holds after a step is what the command leads to. -/
theorem leads_iff_step (op : Op σ ρ) (holds : Except Fault ρ → Host σ → Prop) :
    Leads op host (fun answer after => holds (.ok answer) after)
        (fun fault after => holds (.error fault) after) ↔
      holds (op.step host).outcome (op.step host).after := by
  simp only [Leads, Op.step]
  cases op host <;> rfl

end Operations

namespace Session
variable {σ κ ρ : Type}

/-- The states of a run: the one it started from, and the one after each step. -/
def states (perform : κ → Op σ ρ) (commands : List κ) (start : Host σ) : List (Host σ) :=
  start :: (run perform commands start).map Step.after

/-- What the commands of a run keep holds in every state of it. -/
theorem states_keep_of {perform : κ → Op σ ρ} {allowed : κ → Prop} (holds : Host σ → Prop)
    (keeps : ∀ command, allowed command → ∀ host, holds host → holds ((perform command).step host).after)
    (commands : List κ) (each : ∀ command ∈ commands, allowed command) {start : Host σ} (initial : holds start) :
    ∀ host ∈ states perform commands start, holds host := by
  induction commands generalizing start with
  | nil => simpa [states, run] using initial
  | cons command rest ih =>
    have next := keeps command (each command List.mem_cons_self) start initial
    have each' : ∀ later ∈ rest, allowed later := fun later member => each later (List.mem_cons_of_mem _ member)
    intro host member
    simp only [states, run, List.mem_cons] at member
    rcases member with rfl | member
    · exact initial
    · split at member
      · simp only [List.map_cons, List.map_nil, List.mem_singleton] at member
        exact member ▸ next
      · exact ih each' next host (by simpa [states] using member)

/-- What every command keeps holds in every state of a run. -/
theorem states_keep {perform : κ → Op σ ρ} (holds : Host σ → Prop)
    (keeps : ∀ command host, holds host → holds ((perform command).step host).after)
    (commands : List κ) {start : Host σ} (initial : holds start) :
    ∀ host ∈ states perform commands start, holds host := by
  have each : ∀ command ∈ commands, True := fun _ _ => trivial
  exact states_keep_of holds (fun command _ => keeps command) commands each initial

/-- Along a run everything agrees with a reference that takes the same commands
and is told how each ended; where the run ends, there is nothing left to agree on. -/
def Follows (perform : κ → Op σ ρ) (next : τ → κ → Step σ ρ → τ)
    (agrees : τ → κ → Host σ → Step σ ρ → Prop) : List κ → Host σ → τ → Prop
  | [], _, _ => True
  | command :: rest, host, reference =>
    let step := (perform command).step host
    agrees reference command host step ∧
      (step.ends = false → Follows perform next agrees rest step.after (next reference command step))

/-- A relation that the commands of a run keep makes the run agree. -/
theorem follows_of_step_of {perform : κ → Op σ ρ} {allowed : κ → Prop} {next : τ → κ → Step σ ρ → τ}
    {agrees : τ → κ → Host σ → Step σ ρ → Prop} (related : Host σ → τ → Prop)
    (keeps : ∀ command, allowed command → ∀ host reference, related host reference →
      let step := (perform command).step host
      agrees reference command host step ∧ related step.after (next reference command step))
    (commands : List κ) (each : ∀ command ∈ commands, allowed command) {start : Host σ} {reference : τ}
    (initial : related start reference) : Follows perform next agrees commands start reference := by
  induction commands generalizing start reference with
  | nil => trivial
  | cons command rest ih =>
    obtain ⟨agreed, kept⟩ := keeps command (each command List.mem_cons_self) start reference initial
    exact ⟨agreed, fun _ => ih (fun later member => each later (List.mem_cons_of_mem _ member)) kept⟩

/-- A relation that every command keeps makes every run agree. -/
theorem follows_of_step {perform : κ → Op σ ρ} {next : τ → κ → Step σ ρ → τ}
    {agrees : τ → κ → Host σ → Step σ ρ → Prop} (related : Host σ → τ → Prop)
    (keeps : ∀ command host reference, related host reference →
      let step := (perform command).step host
      agrees reference command host step ∧ related step.after (next reference command step))
    (commands : List κ) {start : Host σ} {reference : τ} (initial : related start reference) :
    Follows perform next agrees commands start reference := by
  have each : ∀ command ∈ commands, True := fun _ _ => trivial
  exact follows_of_step_of related (fun command _ => keeps command) commands each initial

end Session

end Containers
