import Containers.Proofs.Carving
import Containers.Proofs.ManagedVectors
import Containers.Vector.Tenants

/-! Bare blocks and vectors that share one buffer. Whatever is allocated, freed, pushed
and dropped there, everybody holds a block of its own: no two tenants share a byte, and
no request is answered out of turn. -/
namespace Containers

/-- A storage that moves draws on the same allocator as before. -/
theorem Storage.reallocate_allocator {α : Type} [Stored α] (host : Host (Storage α)) (count : Nat) :
    Leads (reallocate count) host
      (fun _ after => after.container.engine.allocator? = host.container.engine.allocator?) fun _ _ => True := by
  unfold reallocate
  apply current_then
  split
  · exact trivial
  · rename_i own capacity address heap
    rw [leads_bind]
    refine (leads_trivial _).mono (fun address after _ => ?_) fun _ _ _ => trivial
    rw [heap]
    rfl

namespace Vector
variable {α : Type} [Stored α]

/-- The buffer is as before, or it is another one, granted by the same allocator. -/
def Rehoused (before after : Host (Vector α)) : Prop :=
  after.container.engine.allocator? = before.container.engine.allocator? ∧
    (after.container.engine = before.container.engine ∧ after.pool = before.pool ∨ Storage.Moved before after)

theorem growIfFull_rehouses (host : Host (Vector α)) :
    Leads growIfFull host (fun _ after => Rehoused host after)
      fun _ after => after.container = host.container ∧ Storage.Declined host.pool after.pool := by
  have moves : ∀ count, Leads (Storage.reallocate count) host (fun _ after => Rehoused host after)
      fun _ after => after.container = host.container ∧ Storage.Declined host.pool after.pool := fun count =>
    ((Storage.reallocate_allocator host count).and (Storage.reallocate_moves host count)).mono
      (fun _ _ both => ⟨both.1, .inr both.2⟩) fun _ _ both => both.2
  exact growIfFull_then (fun _ _ => moves _) (fun _ _ => ⟨rfl, Storage.declined_refl _⟩)
    fun _ => ⟨rfl, .inl ⟨rfl, rfl⟩⟩

theorem tryPush_rehouses (x : α) (host : Host (Vector α)) :
    Leads (tryPush x) host (fun _ after => Rehoused host after)
      fun _ after => after.container = host.container ∧ Storage.Declined host.pool after.pool := by
  unfold tryPush
  rw [leads_bind]
  exact (growIfFull_rehouses host).mono (fun _ _ rehoused => rehoused) fun _ _ failed => failed

end Vector

namespace Tenants

/-- Whoever may hold a block of the buffer. -/
inductive Tenant where
  | block (number : Nat)
  | words (number : Nat)
  | bytes (number : Nat)
deriving DecidableEq

/-- The block that a tenant holds, if it holds any. -/
def held (tenants : Tenants) : Tenant → Option Block
  | .block number => tenants.blocks[number]?
  | .words number => (tenants.words number).bind fun v => Holding.owned v .a
  | .bytes number => (tenants.bytes number).bind fun v => Holding.owned v .a

/-- A vector draws on the buffer and has no more elements than its block has slots. -/
def Lodges (v : Vector α) : Prop :=
  v.Fits ∧ v.engine.allocator? = some .a

/-- A tenant that is a vector keeps its elements in the block that it holds. -/
def Lodged (tenants : Tenants) : Tenant → Prop
  | .block _ => True
  | .words number => ∀ v, tenants.words number = some v → Lodges v
  | .bytes number => ∀ v, tenants.bytes number = some v → Lodges v

/-- Every tenant holds a block that was granted, no two of them share a byte, and
the vectors keep their elements in the blocks that they hold. -/
structure Housed (tenants : Tenants) : Prop where
  granted : ∀ tenant block, tenants.held tenant = some block → block ∈ tenants.buffer.history.grants
  apart : ∀ one other, one ≠ other → ∀ block block', tenants.held one = some block →
    tenants.held other = some block' → block.stop ≤ block'.start ∨ block'.stop ≤ block.start
  lodged : ∀ tenant, tenants.Lodged tenant

/-- The same blocks were granted, and as many bytes are left. -/
def Unmoved (before after : StackBuffer) : Prop :=
  after.used = before.used ∧ after.history.grants = before.history.grants

/-- An element was pushed into the buffer that the vector had, or into one that was
granted for it; if there was no room, the vector is as before and nothing was granted. -/
def Pushed [Stored α] (v : Vector α) (x : α) (reply : Vector α → Reply) (entry : Option (Vector α))
    (before after : StackBuffer) : Except Fault Reply → Prop
  | .ok answer => ∃ made, answer = reply made ∧ entry = some made ∧ made.items = v.items.push x ∧
      (made.engine = v.engine ∧ after = before ∨
        after.history.grants = (Holding.owned made .a).toList ++ before.history.grants)
  | .error _ => entry = some v ∧ Unmoved before after

/-- What a command answers and does to the buffer. -/
def Answers (before : Tenants) (outcome : Except Fault Reply) (after : Tenants) : Command → Prop
  | .allocate size align =>
    match Layout.make? size align with
    | none => outcome = .ok .noLayout ∧ after = before
    | some layout => layout.size = size ∧ layout.align = align ∧
      ∃ start, IsLeast {m | align ∣ m ∧ before.buffer.used ≤ m} start ∧
        if start + size ≤ before.buffer.capacity then
          outcome = .ok (.block ⟨start, layout⟩) ∧
            after.buffer.history.grants = ⟨start, layout⟩ :: before.buffer.history.grants
        else outcome = .error (.refused layout) ∧ after = { before with buffer := after.buffer } ∧
          Unmoved before.buffer after.buffer
  | .free _ => outcome = .ok .done ∧ after = { before with buffer := after.buffer } ∧
      Unmoved before.buffer after.buffer
  | .pushWord number x => Pushed ((before.words number).getD (newVector Int64)) x .words (after.words number)
      before.buffer after.buffer outcome
  | .pushByte number x => Pushed ((before.bytes number).getD (newVector UInt8)) x .bytes (after.bytes number)
      before.buffer after.buffer outcome
  | .dropWords number => outcome = .ok (.existed (before.words number).isSome) ∧ Unmoved before.buffer after.buffer
  | .dropBytes number => outcome = .ok (.existed (before.bytes number).isSome) ∧ Unmoved before.buffer after.buffer
  | .text => outcome = .ok (.texts before.buffer.text before.buffer.handleText) ∧ after = before
  | .reset => outcome = .ok .done ∧ after.buffer.used = 0 ∧ after.buffer.history.grants = []

section Steps
variable {α : Type} {capacity : Nat} {before after : Tenants}

/-- Where one tenant alone changed its block, and for one that was granted meanwhile,
all tenants are still apart. -/
theorem Housed.settle (housed : before.Housed) (carved : before.buffer.allocator.Carved capacity) (changed : Tenant)
    (served : before.buffer.Served after.buffer)
    (others : ∀ tenant, tenant ≠ changed → ∀ block, after.held tenant = some block → before.held tenant = some block)
    (its : ∀ block, after.held changed = some block → before.held changed = some block ∨
      block ∈ after.buffer.history.grants ∧ before.buffer.used ≤ block.start)
    (lodged : ∀ tenant, after.Lodged tenant) : after.Housed := by
  have old : ∀ tenant block, before.held tenant = some block → block ∈ after.buffer.history.grants :=
    fun tenant block holds => served.grants.subset (housed.granted tenant block holds)
  -- a block that was granted meanwhile lies behind all that were there
  have behind : ∀ tenant, tenant ≠ changed → ∀ block block', after.held changed = some block →
      after.held tenant = some block' → block.stop ≤ block'.start ∨ block'.stop ≤ block.start := by
    intro tenant different block block' holds holds'
    have earlier := others tenant different block' holds'
    rcases its block holds with kept | ⟨-, new⟩
    · exact housed.apart changed tenant different.symm block block' kept earlier
    · have inside := carved.inside block' (housed.granted tenant block' earlier)
      exact .inr (Nat.le_trans inside new)
  refine ⟨?_, ?_, lodged⟩
  · intro tenant block holds
    by_cases same : tenant = changed
    · subst same
      exact (its block holds).elim (old tenant block) fun new => new.1
    · exact old tenant block (others tenant same block holds)
  · intro one other different block block' holds holds'
    by_cases first : one = changed
    · subst first
      exact behind other different.symm block block' holds holds'
    · by_cases second : other = changed
      · subst second
        exact (behind one first block' block holds' holds).symm
      · exact housed.apart one other different block block' (others one first block holds)
          (others other second block' holds')

/-- Where no block was granted, no byte was handed out. -/
theorem unmoved_of_served {buffer after : StackBuffer} (served : buffer.Served after)
    (same : after.history.grants = buffer.history.grants) : Unmoved buffer after :=
  ⟨served.carves.top_eq same, same⟩

/-- A refusal is no grant. -/
theorem grants_of_declined {buffer : StackBuffer} {other : Allocator} {pool : Pool}
    (declined : Storage.Declined ⟨buffer.allocator, other⟩ pool) :
    (buffer.after pool.a).history.grants = buffer.history.grants := by
  have noted : pool.a.history = buffer.history ∨ ∃ layout, pool.a.history = .refused layout :: buffer.history :=
    declined .a
  rcases noted with same | ⟨layout, refused⟩
  · exact congrArg History.grants same
  · exact (congrArg History.grants refused).trans rfl

/-- Pushing onto a vector that lives on the buffer. -/
theorem push_leads [Stored α] (v : Vector α) (x : α) (store : Vector α → Tenants → Tenants) (tenants : Tenants) :
    Leads (push v x store) tenants
      (fun made after => ∃ buffer, after = store made { tenants with buffer } ∧ tenants.buffer.Served buffer ∧
        made.items = v.items.push x ∧ (Lodges v → Lodges made) ∧
        (made.engine = v.engine ∧ buffer = tenants.buffer ∨
          buffer.history.grants = (Holding.owned made .a).toList ++ tenants.buffer.history.grants))
      fun _ after => ∃ buffer, after = store v { tenants with buffer } ∧ tenants.buffer.Served buffer ∧
        Unmoved tenants.buffer buffer := by
  have pushes := ((Vector.tryPush_leads ⟨v, tenants.pool⟩ x).and (Vector.tryPush_rehouses x ⟨v, tenants.pool⟩)).and
    ((Vector.managed_tryPush x).deals ⟨v, tenants.pool⟩)
  simp only [Leads, push] at pushes ⊢
  cases ran : Vector.tryPush x ⟨v, tenants.pool⟩ with
  | ok answer after =>
    rw [ran] at pushes
    obtain ⟨⟨⟨items, fits⟩, allocator, rehoused⟩, dealt⟩ := pushes
    refine ⟨_, rfl, StackBuffer.served_of_dealt dealt, items, ?_, ?_⟩
    · exact fun lodges => ⟨fits lodges.1, allocator.trans lodges.2⟩
    · rcases rehoused with ⟨engine, pool⟩ | moved
      · refine .inl ⟨engine, ?_⟩
        rw [pool]
        rfl
      · refine .inr ((congrArg History.grants (moved .a)).trans ?_)
        rw [History.grants_free?, History.grants_grant?]
        rfl
  | error fault after =>
    rw [ran] at pushes
    obtain ⟨⟨-, kept, declined⟩, dealt⟩ := pushes
    have served := StackBuffer.served_of_dealt dealt
    refine ⟨_, ?_, served, unmoved_of_served served (grants_of_declined declined)⟩
    rw [kept]

/-- The buffer is carved into the blocks that were granted, and its tenants are apart. -/
def Kept (capacity : Nat) (tenants : Tenants) : Prop :=
  tenants.buffer.capacity = capacity ∧ tenants.buffer.allocator.Carved capacity ∧ tenants.Housed

/-- A command is answered as it should be, and all but resetting goes on with the blocks that are there. -/
def Obeys (capacity : Nat) (before : Tenants) (command : Command) (outcome : Except Fault Reply)
    (after : Tenants) : Prop :=
  Answers before outcome after command ∧ (command ≠ .reset → before.buffer.Served after.buffer) ∧ Kept capacity after

theorem Kept.serve (kept : Kept capacity before) (served : before.buffer.Served after.buffer) (housed : after.Housed) :
    Kept capacity after := by
  obtain ⟨same, carved, -⟩ := kept
  exact ⟨served.capacity.trans same, (same ▸ served.carves).carved carved, housed⟩

/-- Where no tenant changed its block, all tenants stay apart. -/
theorem Housed.stay (housed : before.Housed) {buffer : StackBuffer} (served : before.buffer.Served buffer) :
    Housed { before with buffer } := by
  have held : ∀ tenant, ({ before with buffer } : Tenants).held tenant = before.held tenant := by
    intro tenant
    cases tenant <;> rfl
  refine ⟨fun tenant block holds => ?_, ?_, ?_⟩
  · exact served.grants.subset (housed.granted tenant block (held tenant ▸ holds))
  · intro one other different block block' holds holds'
    exact housed.apart one other different block block' (held one ▸ holds) (held other ▸ holds')
  · intro tenant
    have lodged := housed.lodged tenant
    cases tenant <;> exact lodged

theorem make?_fields {size align : Nat} {layout : Layout} (made : Layout.make? size align = some layout) :
    layout.size = size ∧ layout.align = align := by
  unfold Layout.make? at made
  split at made
  · split at made
    · cases made
      exact ⟨rfl, rfl⟩
    · cases made
  · cases made

/-- A block that was just granted joins the tenants. -/
theorem Housed.join (housed : before.Housed) (carved : before.buffer.allocator.Carved capacity) {buffer : StackBuffer}
    {block : Block} (served : before.buffer.Served buffer)
    (latest : buffer.history.grants = block :: before.buffer.history.grants)
    (new : before.buffer.used ≤ block.start) :
    Housed { before with buffer, blocks := before.blocks.push block } := by
  refine housed.settle carved (.block before.blocks.size) served ?_ ?_ ?_
  · intro tenant different other holds
    cases tenant with
    | block number =>
      have older : number ≠ before.blocks.size := fun last => different (last ▸ rfl)
      simp only [held, Array.getElem?_push, older, ↓reduceIte] at holds
      exact holds
    | words number => exact holds
    | bytes number => exact holds
  · intro other holds
    simp only [held, Array.getElem?_push_size, Option.some.injEq] at holds
    subst holds
    exact .inr ⟨latest ▸ List.mem_cons_self, new⟩
  · intro tenant
    have lodged := housed.lodged tenant
    cases tenant <;> exact lodged

theorem allocate_obeys (kept : Kept capacity before) (size align : Nat) :
    Leads (Command.allocate size align).perform before
      (fun reply after => Obeys capacity before (.allocate size align) (.ok reply) after)
      fun fault after => Obeys capacity before (.allocate size align) (.error fault) after := by
  obtain ⟨same, carved, housed⟩ := id kept
  cases made : Layout.make? size align with
  | none =>
    simp only [Command.perform, Obeys, Answers, made]
    exact ⟨⟨rfl, rfl⟩, fun _ => before.buffer.served_refl, kept⟩
  | some layout =>
    obtain ⟨rfl, rfl⟩ := make?_fields made
    have least := alignUp_isLeast before.buffer.used layout.align_pos
    have served := before.buffer.served_allocate layout
    have answered := before.buffer.allocate_eq layout
    simp only [Command.perform, Obeys, Answers, made, Leads]
    by_cases fits : (before.buffer.allocator.place layout).stop ≤ before.buffer.capacity
    · rw [if_pos fits] at answered
      rw [answered] at served ⊢
      refine ⟨⟨trivial, trivial, _, least, ?_⟩, fun _ => served, kept.serve served ?_⟩
      · rw [if_pos (by exact fits)]
        exact ⟨rfl, rfl⟩
      · exact housed.join carved served rfl (before.buffer.allocator.top_le_start layout)
    · rw [if_neg fits] at answered
      rw [answered] at served ⊢
      refine ⟨⟨trivial, trivial, _, least, ?_⟩, fun _ => served, kept.serve served (housed.stay served)⟩
      rw [if_neg (by exact fits)]
      exact ⟨rfl, rfl, rfl, rfl⟩

theorem lodges_new (α : Type) : Lodges (newVector α) := ⟨Nat.le_refl _, rfl⟩

/-- One of the tables of vectors. -/
structure Shelf (α : Type) [Stored α] where
  tenant : Nat → Tenant
  table : Tenants → Nat → Option (Vector α)
  put : Nat → Option (Vector α) → Tenants → Tenants
  held_eq (tenants : Tenants) (number : Nat) :
    tenants.held (tenant number) = (table tenants number).bind fun v => Holding.owned v .a
  lodged_iff (tenants : Tenants) (number : Nat) :
    tenants.Lodged (tenant number) ↔ ∀ v, table tenants number = some v → Lodges v
  table_put (tenants : Tenants) (number : Nat) (entry : Option (Vector α)) :
    table (put number entry tenants) number = entry
  buffer_put (tenants : Tenants) (number : Nat) (entry : Option (Vector α)) :
    (put number entry tenants).buffer = tenants.buffer
  held_put (tenants : Tenants) (number : Nat) (entry : Option (Vector α)) {other : Tenant}
    (apart : other ≠ tenant number) :
    (put number entry tenants).held other = tenants.held other
  lodged_put (tenants : Tenants) (number : Nat) (entry : Option (Vector α)) {other : Tenant}
    (apart : other ≠ tenant number) :
    (put number entry tenants).Lodged other ↔ tenants.Lodged other

/-- The vectors of words. -/
def Shelf.words : Shelf Int64 where
  tenant := .words
  table tenants := tenants.words
  put := setWords
  held_eq _ _ := rfl
  lodged_iff _ _ := Iff.rfl
  table_put _ _ _ := if_pos rfl
  buffer_put _ _ _ := rfl
  held_put tenants number entry other apart := by
    cases other with
    | words other =>
      have different : other ≠ number := fun same => apart (same ▸ rfl)
      simp only [held, setWords, setEntry, if_neg different]
    | block other => rfl
    | bytes other => rfl
  lodged_put tenants number entry other apart := by
    cases other with
    | words other =>
      have different : other ≠ number := fun same => apart (same ▸ rfl)
      simp only [Lodged, setWords, setEntry, if_neg different]
    | block other => rfl
    | bytes other => rfl

/-- The vectors of bytes. -/
def Shelf.bytes : Shelf UInt8 where
  tenant := .bytes
  table tenants := tenants.bytes
  put := setBytes
  held_eq _ _ := rfl
  lodged_iff _ _ := Iff.rfl
  table_put _ _ _ := if_pos rfl
  buffer_put _ _ _ := rfl
  held_put tenants number entry other apart := by
    cases other with
    | bytes other =>
      have different : other ≠ number := fun same => apart (same ▸ rfl)
      simp only [held, setBytes, setEntry, if_neg different]
    | block other => rfl
    | words other => rfl
  lodged_put tenants number entry other apart := by
    cases other with
    | bytes other =>
      have different : other ≠ number := fun same => apart (same ▸ rfl)
      simp only [Lodged, setBytes, setEntry, if_neg different]
    | block other => rfl
    | words other => rfl

variable [Stored α]

/-- Another vector is put on a shelf, or none. -/
theorem Housed.store (shelf : Shelf α) (housed : before.Housed) (carved : before.buffer.allocator.Carved capacity)
    {buffer : StackBuffer} (served : before.buffer.Served buffer) (number : Nat) {entry : Option (Vector α)}
    (lodges : ∀ v, entry = some v → Lodges v)
    (its : ∀ v, entry = some v → ∀ block, Holding.owned v .a = some block →
      before.held (shelf.tenant number) = some block ∨
        block ∈ buffer.history.grants ∧ before.buffer.used ≤ block.start) :
    (shelf.put number entry { before with buffer }).Housed := by
  have stay := housed.stay served
  have served' : before.buffer.Served (shelf.put number entry { before with buffer }).buffer := by
    rwa [shelf.buffer_put]
  refine housed.settle carved (shelf.tenant number) served' ?_ ?_ ?_
  · intro tenant apart block holds
    rw [shelf.held_put _ number entry apart] at holds
    cases tenant <;> exact holds
  · intro block holds
    rw [shelf.held_eq, shelf.table_put, Option.bind_eq_some_iff] at holds
    obtain ⟨v, isEntry, owns⟩ := holds
    rw [shelf.buffer_put]
    exact its v isEntry block owns
  · intro tenant
    by_cases same : tenant = shelf.tenant number
    · subst same
      rw [shelf.lodged_iff, shelf.table_put]
      exact lodges
    · rw [shelf.lodged_put _ number entry same]
      exact stay.lodged tenant

/-- The vector that a command finds under a number holds what is filed there. -/
theorem held_entry (shelf : Shelf α) (tenants : Tenants) (number : Nat) (block : Block)
    (owns : Holding.owned ((shelf.table tenants number).getD (newVector α)) .a = some block) :
    tenants.held (shelf.tenant number) = some block := by
  rw [shelf.held_eq]
  cases entry : shelf.table tenants number with
  | none =>
    rw [entry] at owns
    have vacated : (Engine.heap .a 0 0).Vacated (newVector α).engine := .fresh
    have bare : Holding.owned (newVector α) .a = none := vacated.owned_eq .a
    cases bare.symm.trans owns
  | some v =>
    rw [entry] at owns
    exact owns

/-- The block that a pushed vector holds is the one that it held, or a new one. -/
theorem pushed_holds {v made : Vector α} {buffer after : StackBuffer} (served : buffer.Served after)
    (carved : buffer.allocator.Carved buffer.capacity)
    (moved : made.engine = v.engine ∧ after = buffer ∨
      after.history.grants = (Holding.owned made .a).toList ++ buffer.history.grants)
    (block : Block) (holds : Holding.owned made .a = some block) :
    Holding.owned v .a = some block ∨ block ∈ after.history.grants ∧ buffer.used ≤ block.start := by
  rcases moved with ⟨engine, -⟩ | latest
  · exact .inl ((congrFun (Buffered.owned_congr engine.symm) .a).trans holds)
  · rw [holds] at latest
    have latest' : after.history.grants = block :: buffer.history.grants := latest
    exact .inr ⟨latest' ▸ List.mem_cons_self, (served.carves.carved carved).top_le_latest carved latest'⟩

theorem lodges_entry (shelf : Shelf α) (housed : before.Housed) (number : Nat) :
    Lodges ((shelf.table before number).getD (newVector α)) := by
  have lodged := (shelf.lodged_iff before number).mp (housed.lodged (shelf.tenant number))
  cases entry : shelf.table before number with
  | none => exact lodges_new α
  | some v => exact lodged v entry

/-- Pushing onto a vector on a shelf. -/
theorem push_keeps (shelf : Shelf α) (kept : Kept capacity before) (number : Nat) (x : α)
    (reply : Vector α → Reply) :
    let v := (shelf.table before number).getD (newVector α)
    Leads (push v x fun v => shelf.put number (some v)) before
      (fun made after => Pushed v x reply (shelf.table after number) before.buffer after.buffer (.ok (reply made)) ∧
        before.buffer.Served after.buffer ∧ Kept capacity after)
      fun fault after => Pushed v x reply (shelf.table after number) before.buffer after.buffer (.error fault) ∧
        before.buffer.Served after.buffer ∧ Kept capacity after := by
  intro v
  obtain ⟨rfl, carved, housed⟩ := id kept
  have lodges := lodges_entry shelf housed number
  refine (push_leads v x _ before).mono ?_ ?_
  · rintro made _ ⟨buffer, rfl, served, items, lodge, moved⟩
    have served' : before.buffer.Served (shelf.put number (some made) { before with buffer }).buffer := by
      rwa [shelf.buffer_put]
    refine ⟨⟨made, rfl, shelf.table_put _ _ _, items, ?_⟩, served', kept.serve served' ?_⟩
    · rwa [shelf.buffer_put]
    · refine housed.store shelf carved served number (fun w isMade => ?_) fun w isMade block owns => ?_
      · exact Option.some.inj isMade ▸ lodge lodges
      · rw [← Option.some.inj isMade] at owns
        exact (pushed_holds served carved moved block owns).imp_left (held_entry shelf before number block)
  · rintro fault _ ⟨buffer, rfl, served, unmoved⟩
    have served' : before.buffer.Served (shelf.put number (some v) { before with buffer }).buffer := by
      rwa [shelf.buffer_put]
    refine ⟨⟨shelf.table_put _ _ _, ?_⟩, served', kept.serve served' ?_⟩
    · rwa [shelf.buffer_put]
    · refine housed.store shelf carved served number (fun w isSame => ?_) fun w isSame block owns => ?_
      · exact Option.some.inj isSame ▸ lodges
      · rw [← Option.some.inj isSame] at owns
        exact .inl (held_entry shelf before number block owns)

/-- A vector that is dropped frees its block, which makes no room. -/
theorem drop_unmoved (v : Vector α) (tenants : Tenants) :
    Unmoved tenants.buffer (drop v tenants).buffer := by
  rcases Buffered.dispose_frees v with keeps | ⟨id, block, frees⟩
  · simp only [drop, keeps]
    exact ⟨rfl, rfl⟩
  · simp only [drop, frees]
    cases id <;> exact ⟨rfl, rfl⟩

/-- Dropping a vector on a shelf. -/
theorem drop_keeps (shelf : Shelf α) (kept : Kept capacity before) (number : Nat) (v : Vector α) :
    let after := shelf.put number none (drop v before)
    Unmoved before.buffer after.buffer ∧ before.buffer.Served after.buffer ∧ Kept capacity after := by
  intro after
  obtain ⟨rfl, carved, housed⟩ := id kept
  have served : before.buffer.Served (drop v before).buffer :=
    StackBuffer.served_of_dealt (dealt_dispose v before.pool)
  have served' : before.buffer.Served after.buffer := by rwa [shelf.buffer_put]
  refine ⟨?_, served', kept.serve served' (housed.store shelf carved served number nofun nofun)⟩
  rw [shelf.buffer_put]
  exact drop_unmoved v before

/-- Nobody holds a block of a buffer that was just reset. -/
theorem housed_vacant (buffer : StackBuffer) : Housed { buffer } := by
  have vacant : ∀ tenant, ({ buffer } : Tenants).held tenant = none := by
    intro tenant
    cases tenant <;> rfl
  refine ⟨fun tenant block holds => ?_, fun one other different block block' holds => ?_, fun tenant => ?_⟩
  · cases (vacant tenant).symm.trans holds
  · cases (vacant one).symm.trans holds
  · cases tenant with
    | block number => trivial
    | words number => nofun
    | bytes number => nofun

/-- Every command is answered as it should be, and keeps the tenants apart. -/
theorem perform_obeys (kept : Kept capacity before) (command : Command) :
    Leads command.perform before (fun reply after => Obeys capacity before command (.ok reply) after)
      fun fault after => Obeys capacity before command (.error fault) after := by
  have served_refl := before.buffer.served_refl
  cases command with
  | allocate size align => exact allocate_obeys kept size align
  | free number =>
    rw [Command.perform, leads_bind, leads_modify]
    cases before.blocks[number]? with
    | none => exact ⟨⟨rfl, rfl, rfl, rfl⟩, fun _ => served_refl, kept⟩
    | some block =>
      have served := before.buffer.served_free block
      exact ⟨⟨rfl, rfl, rfl, rfl⟩, fun _ => served, kept.serve served (kept.2.2.stay served)⟩
  | pushWord number x =>
    refine get_then ((leads_map _ _).mpr ((push_keeps .words kept number x .words).mono ?_ ?_))
    · rintro made after ⟨pushed, served, kept'⟩
      exact ⟨pushed, fun _ => served, kept'⟩
    · rintro fault after ⟨pushed, served, kept'⟩
      exact ⟨pushed, fun _ => served, kept'⟩
  | pushByte number x =>
    refine get_then ((leads_map _ _).mpr ((push_keeps .bytes kept number x .bytes).mono ?_ ?_))
    · rintro made after ⟨pushed, served, kept'⟩
      exact ⟨pushed, fun _ => served, kept'⟩
    · rintro fault after ⟨pushed, served, kept'⟩
      exact ⟨pushed, fun _ => served, kept'⟩
  | dropWords number =>
    apply get_then
    cases entry : before.words number with
    | none =>
      exact ⟨⟨by rw [entry]; rfl, rfl, rfl⟩, fun _ => served_refl, kept⟩
    | some v =>
      obtain ⟨unmoved, served, kept'⟩ := drop_keeps .words kept number v
      exact ⟨⟨by rw [entry]; rfl, unmoved⟩, fun _ => served, kept'⟩
  | dropBytes number =>
    apply get_then
    cases entry : before.bytes number with
    | none =>
      exact ⟨⟨by rw [entry]; rfl, rfl, rfl⟩, fun _ => served_refl, kept⟩
    | some v =>
      obtain ⟨unmoved, served, kept'⟩ := drop_keeps .bytes kept number v
      exact ⟨⟨by rw [entry]; rfl, unmoved⟩, fun _ => served, kept'⟩
  | text => exact ⟨⟨rfl, rfl⟩, fun _ => served_refl, kept⟩
  | reset =>
    exact ⟨⟨rfl, rfl, rfl⟩, fun other => absurd rfl other, kept.1, Allocator.carved_fresh capacity _, housed_vacant _⟩

end Steps

/-- The states of a run: the one it started from, and the one after each command. -/
def states (commands : List Command) (start : Tenants) : List Tenants :=
  start :: (run commands start).map Prod.snd

/-- What every command keeps holds in every state of a run. -/
theorem states_keep (holds : Tenants → Prop)
    (keeps : ∀ command tenants, holds tenants →
      Leads (Command.perform command) tenants (fun _ after => holds after) fun _ after => holds after)
    (commands : List Command) {start : Tenants} (initial : holds start) :
    ∀ tenants ∈ states commands start, holds tenants := by
  induction commands generalizing start with
  | nil => simpa [states, run] using initial
  | cons command rest ih =>
    have next := keeps command start initial
    intro tenants member
    rcases List.mem_cons.mp member with rfl | later
    · exact initial
    · simp only [Leads] at next
      simp only [run] at later
      cases ran : command.perform start with
      | ok reply after =>
        rw [ran] at next later
        exact ih next tenants later
      | error fault after =>
        rw [ran] at next later
        exact ih next tenants later

/-- In every state of every run on a buffer, whatever was allocated, freed, pushed,
dropped and reset before, the blocks granted since the last reset lie inside the buffer,
aligned and apart, the bytes used end with the latest of them, and the next command is
answered as it should be. No operation of any other vector on the buffer does anything
to it but what its own requests and frees do. -/
theorem run_keeps_apart {α : Type} [Stored α] [BEq α] [Inhabited α] [Shown α] (capacity : Nat)
    (commands : List Command) :
    (∀ tenants ∈ states commands { buffer := ⟨capacity, 0, []⟩ }, Kept capacity tenants ∧
      tenants.buffer.used = (tenants.buffer.history.grants.head?).elim 0 Block.stop ∧
      tenants.buffer.used + tenants.buffer.remaining = capacity ∧
      ∀ command, Leads (Command.perform command) tenants
        (fun reply after => Obeys capacity tenants command (.ok reply) after)
        fun fault after => Obeys capacity tenants command (.error fault) after) ∧
    ∀ (buffer : StackBuffer) (other : Allocator) (v : Vector α) (command : Vector.Command α),
      buffer.Served (buffer.after (command.perform.step ⟨v, ⟨buffer.allocator, other⟩⟩).after.pool.a) := by
  constructor
  · intro tenants member
    have kept : Kept capacity tenants := by
      refine states_keep (Kept capacity) (fun command before kept => ?_) commands
        ⟨rfl, Allocator.carved_fresh capacity _, housed_vacant _⟩ tenants member
      exact (perform_obeys kept command).mono (fun _ _ obeys => obeys.2.2) fun _ _ obeys => obeys.2.2
    obtain ⟨same, carved, -⟩ := id kept
    refine ⟨kept, carved.ends, ?_, fun command => perform_obeys kept command⟩
    have within : tenants.buffer.top ≤ capacity := carved.within
    simp only [StackBuffer.remaining, StackBuffer.used]
    omega
  · intro buffer other v command
    have deals := (Vector.managed_perform command).deals ⟨v, ⟨buffer.allocator, other⟩⟩
    have dealt :
        Pool.Dealt ⟨buffer.allocator, other⟩ (command.perform.step ⟨v, ⟨buffer.allocator, other⟩⟩).after.pool :=
      (leads_iff_step command.perform fun _ after => Pool.Dealt ⟨buffer.allocator, other⟩ after.pool).mp deals
    exact StackBuffer.served_of_dealt dealt

end Tenants

end Containers
