import Containers.Proofs.Managed
import Containers.Proofs.Twins

/-! Runs from states that differ in noted refusals only. An allocator whose rule does
not look at what it refused answers the rest of a run as if it had never been asked, so
that a request that was refused leaves no trace in anything that a run shows. -/
namespace Containers

namespace History

/-- The history without the refusals. -/
def settled (history : History) : History :=
  history.filter fun
    | .refused _ => false
    | _ => true

theorem grants_settled (history : History) : history.settled.grants = history.grants := by
  induction history with
  | nil => rfl
  | cons event earlier ih =>
    cases event with
    | granted block => exact congrArg (block :: ·) ih
    | refused layout => exact ih
    | freed block => exact ih

theorem frees_settled (history : History) : history.settled.frees = history.frees := by
  induction history with
  | nil => rfl
  | cons event earlier ih =>
    cases event with
    | granted block => exact ih
    | refused layout => exact ih
    | freed block => exact congrArg (block :: ·) ih

end History

namespace Rule

/-- The rule does not look at what was refused before. -/
def Forgetful (rule : Rule) : Prop :=
  ∀ history block, rule (History.settled history) block = rule history block

theorem forgetful_liveWithin (limit : Nat) : Forgetful (liveWithin limit) := by
  intro history block
  have live : history.settled.live = history.live := by
    rw [History.live, History.grants_settled, History.frees_settled, History.live]
  exact congrArg (fun live => decide (live + block.layout.size ≤ limit)) live

theorem forgetful_endsWithin (capacity : Nat) : Forgetful (endsWithin capacity) :=
  fun _ _ => rfl

end Rule

/-- Two allocators with the same rule that differ in what they refused only. -/
structure Allocator.Alike (one other : Allocator) : Prop where
  rule : other.rule = one.rule
  forgetful : one.rule.Forgetful
  top : other.top = one.top
  settled : other.history.settled = one.history.settled

namespace Allocator
variable {one other : Allocator}

/-- Both answer a request in the same way and stay alike. -/
theorem Alike.allocate (alike : one.Alike other) (layout : Layout) :
    (other.allocate layout).1 = (one.allocate layout).1 ∧ (one.allocate layout).2.Alike (other.allocate layout).2 := by
  obtain ⟨rule, forgetful, top, settled⟩ := alike
  have place : other.place layout = one.place layout := by rw [Allocator.place, top, Allocator.place]
  have decides : other.admits layout = one.admits layout := by
    rw [admits, admits, rule, place, ← forgetful other.history, settled, forgetful]
  unfold Allocator.allocate
  rw [decides]
  split
  · refine ⟨congrArg some place, rule, forgetful, congrArg Block.stop place, ?_⟩
    change Event.granted (other.place layout) :: other.history.settled = _
    rw [place, settled]
    rfl
  · exact ⟨rfl, rule, forgetful, top, settled⟩

theorem Alike.free (alike : one.Alike other) (block : Block) : (one.free block).Alike (other.free block) where
  rule := alike.rule
  forgetful := alike.forgetful
  top := alike.top
  settled := congrArg (List.cons (Event.freed block)) alike.settled

end Allocator

namespace Pool
variable {one other : Pool}

/-- Two pools whose allocators differ in what they refused only. -/
def Alike (one other : Pool) : Prop :=
  ∀ id, (one.get id).Alike (other.get id)

/-- No allocator looks at what it refused before. -/
def Forgetful (pool : Pool) : Prop :=
  ∀ id, (pool.get id).rule.Forgetful

theorem Forgetful.alike {pool : Pool} (forgetful : pool.Forgetful) : pool.Alike pool :=
  fun id => ⟨rfl, forgetful id, rfl, rfl⟩

theorem Alike.set (alike : one.Alike other) {here there : Allocator} (same : here.Alike there) (id : AllocatorId) :
    (one.set here id).Alike (other.set there id) := by
  intro asked
  rw [get_set, get_set]
  split
  · exact same
  · exact alike asked

theorem Alike.allocate (alike : one.Alike other) (id : AllocatorId) (layout : Layout) :
    (other.allocate id layout).1 = (one.allocate id layout).1 ∧
      (one.allocate id layout).2.Alike (other.allocate id layout).2 := by
  obtain ⟨answer, same⟩ := (alike id).allocate layout
  exact ⟨answer, alike.set same id⟩

theorem Alike.free (alike : one.Alike other) (id : AllocatorId) (block : Block) :
    (one.free id block).Alike (other.free id block) :=
  alike.set ((alike id).free block) id

end Pool

/-- The same container beside pools that are alike. -/
structure Host.Alike {σ : Type} (one other : Host σ) : Prop where
  container : other.container = one.container
  pool : one.pool.Alike other.pool

section Operations
variable {σ τ β : Type}

/-- The containers are the same, and so is what follows from them. -/
theorem twinned_reading {next : σ → Op σ β} (rest : ∀ container, Twinned Host.Alike (next container)) :
    Twinned Host.Alike (Op.current >>= next) := by
  intro one other alike
  apply current_then
  simp only [bind, EStateM.bind, Op.current, alike.container]
  exact rest one.container one other alike

theorem twinned_alone (step : EStateM Fault σ β) : Twinned Host.Alike (Op.alone step) := by
  intro one other alike
  rw [leads_alone]
  simp only [Leads, Op.alone, alike.container]
  cases step one.container with
  | ok answer container => exact ⟨_, rfl, rfl, alike.pool⟩
  | error fault container => exact ⟨_, rfl, rfl, alike.pool⟩

theorem twinned_part {read : σ → τ} {write : τ → σ → σ} {op : Op τ β} (twinned : Twinned Host.Alike op) :
    Twinned Host.Alike (Op.part read write op) := by
  intro one other alike
  rw [leads_part]
  have inner : Host.Alike ⟨read one.container, one.pool⟩ ⟨read other.container, other.pool⟩ :=
    ⟨congrArg read alike.container, alike.pool⟩
  have back : ∀ {after after' : Host τ}, after.Alike after' → Host.Alike
      (⟨write after.container one.container, after.pool⟩ : Host σ)
      ⟨write after'.container other.container, after'.pool⟩ :=
    fun same => ⟨by rw [same.container, alike.container], same.pool⟩
  refine (twinned _ _ inner).mono ?_ ?_
  · rintro answer after ⟨after', ran, same⟩
    exact ⟨_, by simp only [Op.part, ran], back same⟩
  · rintro fault after ⟨after', ran, same⟩
    exact ⟨_, by simp only [Op.part, ran], back same⟩

theorem twinned_become (container : σ) : Twinned Host.Alike (Op.become container) :=
  fun _ _ alike => ⟨_, rfl, rfl, alike.pool⟩

theorem twinned_settle {change : Pool → Pool}
    (keeps : ∀ one other, one.Alike other → (change one).Alike (change other)) :
    Twinned Host.Alike (Op.settle change : Op σ Unit) :=
  fun one other alike => ⟨_, rfl, alike.container, keeps one.pool other.pool alike.pool⟩

theorem twinned_request (id : AllocatorId) (layout : Layout) :
    Twinned Host.Alike (Op.request id layout : Op σ Block) := by
  intro one other alike
  obtain ⟨answer, same⟩ := alike.pool.allocate id layout
  rw [leads_request]
  unfold Op.request
  rcases here : one.pool.allocate id layout with ⟨granted, pool⟩
  rcases there : other.pool.allocate id layout with ⟨granted', pool'⟩
  rw [here, there] at answer same
  obtain rfl : granted' = granted := answer
  cases granted' with
  | none => exact ⟨_, rfl, alike.container, same⟩
  | some block => exact ⟨_, rfl, alike.container, same⟩

/-- What is made beside from the same beginning is made in the same way. -/
theorem twinned_build [Buffered τ] {fresh : τ} {op : Op τ Unit}
    (disposes : ∀ (container : τ) one other, Pool.Alike one other →
      (Container.dispose container one).Alike (Container.dispose container other))
    (twinned : Twinned Host.Alike op) : Twinned Host.Alike (Op.build fresh op : Op σ τ) := by
  intro one other alike
  rw [leads_build]
  have inner : Host.Alike ⟨fresh, one.pool⟩ ⟨fresh, other.pool⟩ := ⟨rfl, alike.pool⟩
  refine (twinned _ _ inner).mono ?_ ?_
  · rintro answer made ⟨made', ran, same⟩
    refine ⟨⟨other.container, made'.pool⟩, ?_, alike.container, same.pool⟩
    simp only [Op.build, ran, same.container]
  · rintro fault made ⟨made', ran, same⟩
    refine ⟨⟨other.container, Container.dispose made.container made'.pool⟩, ?_, alike.container,
      disposes _ _ _ same.pool⟩
    simp only [Op.build, ran, same.container]

theorem alike_dispose [Buffered σ] (container : σ) (one other : Pool) (alike : one.Alike other) :
    (Container.dispose container one).Alike (Container.dispose container other) := by
  rcases Buffered.dispose_frees container with keeps | ⟨id, block, frees⟩
  · rwa [keeps, keeps]
  · rw [frees, frees]
    exact alike.free id block

theorem twinned_acquire {α : Type} [Stored α] (id : AllocatorId) (count : Nat) :
    Twinned Host.Alike (Storage.acquire α id count : Op σ Nat) := by
  unfold Storage.acquire
  refine twinned_bind (twinned_require _ _) fun _ => ?_
  split
  · exact twinned_pure 0
  · exact twinned_bind (twinned_request id _) fun block => twinned_pure block.start

theorem twinned_reallocate {α : Type} [Stored α] (count : Nat) :
    Twinned Host.Alike (Storage.reallocate count : Op (Storage α) Unit) := by
  unfold Storage.reallocate
  refine twinned_reading fun storage => ?_
  split
  · exact twinned_fail _
  · refine twinned_bind (twinned_acquire _ count) fun address => ?_
    exact twinned_bind (twinned_settle (alike_dispose storage)) fun _ => twinned_become _

theorem twinned_reallocateDiscarding {α : Type} [Stored α] (count : Nat) :
    Twinned Host.Alike (Storage.reallocateDiscarding count : Op (Storage α) Unit) := by
  unfold Storage.reallocateDiscarding
  refine twinned_reading fun storage => ?_
  split
  · exact twinned_fail _
  · refine twinned_bind (twinned_require _ _) fun _ => ?_
    refine twinned_bind (twinned_acquire _ count) fun address => ?_
    exact twinned_bind (twinned_settle (alike_dispose storage)) fun _ => twinned_become _

/-- No operation whose dealings are in order sees what was refused before. -/
theorem Managed.twinned [Buffered σ] {op : Op σ β} (managed : Managed op) : Twinned Host.Alike op := by
  induction managed with
  | @alone _ _ _ step _ => exact twinned_alone step
  | bind _ _ first rest => exact twinned_bind first rest
  | orAbort _ twinned => exact twinned_orAbort twinned
  | part _ _ _ twinned => exact twinned_part twinned
  | reallocate count => exact twinned_reallocate count
  | reallocateDiscarding count => exact twinned_reallocateDiscarding count
  | setAllocator id =>
    intro one other alike
    refine ⟨_, rfl, ?_, alike.pool⟩
    rw [alike.container]
  | vacate answer anew _ =>
    intro one other alike
    refine ⟨⟨anew one.container, Container.dispose one.container other.pool⟩, ?_, rfl,
      alike_dispose _ _ _ alike.pool⟩
    rw [Op.vacate, alike.container]
  | remake _ _ _ fills =>
    refine twinned_reading fun container => ?_
    refine twinned_bind (twinned_build alike_dispose (fills container)) fun made => ?_
    intro one other alike
    refine ⟨_, rfl, rfl, ?_⟩
    rw [alike.container]
    exact alike_dispose _ _ _ alike.pool
  | trial _ _ fills =>
    refine twinned_reading fun container => ?_
    refine twinned_bind (twinned_build alike_dispose (fills container)) fun made => ?_
    exact twinned_bind (twinned_settle (alike_dispose made)) fun _ => twinned_pure _

end Operations

namespace Session
variable {σ κ ρ : Type}

/-- What a run shows of itself: how every command ended, and the container behind it. -/
def shown (perform : κ → Op σ ρ) (commands : List κ) (host : Host σ) : List (Except Fault ρ × σ) :=
  (run perform commands host).map fun step => (step.outcome, step.after.container)

/-- Whatever the commands are, the run goes on from one state as from the other. -/
def Resumes (perform : κ → Op σ ρ) (one other : Host σ) : Prop :=
  ∀ commands, shown perform commands other = shown perform commands one

/-- Both steps end in the same way and leave hosts that are alike. -/
theorem step_of_twinned {op : Op σ ρ} (twinned : Twinned Host.Alike op) {one other : Host σ} (alike : one.Alike other) :
    (op.step other).outcome = (op.step one).outcome ∧ (op.step one).after.Alike (op.step other).after := by
  refine (leads_iff_step op fun outcome after => (op.step other).outcome = outcome ∧
    after.Alike (op.step other).after).mp ((twinned one other alike).mono ?_ ?_)
  · rintro answer after ⟨after', ran, same⟩
    rw [Op.step, ran]
    exact ⟨rfl, same⟩
  · rintro fault after ⟨after', ran, same⟩
    rw [Op.step, ran]
    exact ⟨rfl, same⟩

/-- Commands whose dealings are in order go on alike from states that are alike. -/
theorem resumes_of_alike [Buffered σ] {perform : κ → Op σ ρ} (managed : ∀ command, Managed (perform command))
    {one other : Host σ} (alike : one.Alike other) : Resumes perform one other := by
  intro commands
  induction commands generalizing one other with
  | nil => rfl
  | cons command rest ih =>
    obtain ⟨outcome, same⟩ := step_of_twinned (managed command).twinned alike
    have ends : ((perform command).step other).ends = ((perform command).step one).ends := by
      rw [Step.ends, Step.ends, outcome]
    have later := ih same
    simp only [shown] at later
    simp only [shown, run, ends]
    split
    · simp only [List.map_cons, List.map_nil, outcome, same.container]
    · simp only [List.map_cons, outcome, same.container, later]

end Session

end Containers
