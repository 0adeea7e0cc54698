import Containers.Memory.StackBuffer
import Containers.Proofs.Managed
import Mathlib.Order.Bounds.Defs

/-! Blocks carved from one buffer. Every block that was granted since the buffer was
reset lies inside the buffer, behind all blocks granted before it, and starts at a
multiple of its alignment; so no two of them overlap, whoever asked for them. A block
is granted exactly if it fits behind the blocks that are there, and a refusal or a
free changes nothing for the requests that follow. -/
namespace Containers

/-- Rounding up gives the least multiple at or above a number. -/
theorem alignUp_isLeast (n : Nat) {align : Nat} (positive : 0 < align) :
    IsLeast {m | align ∣ m ∧ n ≤ m} (alignUp n align) := by
  have split := Nat.div_add_mod (n + (align - 1)) align
  have small := Nat.mod_lt (n + (align - 1)) positive
  refine ⟨⟨Nat.dvd_mul_left .., ?_⟩, ?_⟩
  · rw [alignUp, Nat.mul_comm]
    omega
  · rintro m ⟨⟨count, rfl⟩, above⟩
    have within : (n + (align - 1)) / align < count + 1 := by
      apply Nat.div_lt_of_lt_mul
      rw [Nat.mul_add, Nat.mul_one]
      omega
    rw [alignUp, Nat.mul_comm align count]
    exact Nat.mul_le_mul_right align (Nat.lt_succ_iff.mp within)

namespace History

theorem grants_grant? (history : History) (made : Option Block) :
    (history.grant? made).grants = made.toList ++ history.grants := by
  cases made with
  | none => rfl
  | some block => rfl

theorem grants_free? (history : History) (owned : Option Block) : (history.free? owned).grants = history.grants := by
  cases owned with
  | none => rfl
  | some block => rfl

end History

namespace Allocator

/-- The later allocator went on from `start` on a buffer of `capacity` bytes: a request
was granted where it fits behind the blocks that were there, and refused only where
it does not; blocks were freed at will. -/
inductive Carves (capacity : Nat) (start : Allocator) : Allocator → Prop where
  | start : Carves capacity start start
  | granted {later : Allocator} (layout : Layout) (fits : (later.place layout).stop ≤ capacity)
      (before : Carves capacity start later) :
      Carves capacity start { later with
        top := (later.place layout).stop
        history := .granted (later.place layout) :: later.history }
  | refused {later : Allocator} (layout : Layout) (lacking : capacity < (later.place layout).stop)
      (before : Carves capacity start later) :
      Carves capacity start { later with history := .refused layout :: later.history }
  | freed {later : Allocator} (block : Block) (before : Carves capacity start later) :
      Carves capacity start (later.free block)

/-- The bytes handed out of a buffer of `capacity` bytes end with the latest granted
block. The blocks lie inside it, aligned, each behind all earlier ones. -/
structure Carved (capacity : Nat) (allocator : Allocator) : Prop where
  ends : allocator.top = (allocator.history.grants.head?).elim 0 Block.stop
  within : allocator.top ≤ capacity
  aligned : ∀ block ∈ allocator.history.grants, block.layout.align ∣ block.start
  inside : ∀ block ∈ allocator.history.grants, block.stop ≤ allocator.top
  apart : allocator.history.grants.Pairwise fun later earlier => earlier.stop ≤ later.start

variable {capacity : Nat} {start later : Allocator}

theorem top_le_start (layout : Layout) (allocator : Allocator) : allocator.top ≤ (allocator.place layout).start :=
  (alignUp_isLeast allocator.top layout.align_pos).1.2

theorem top_le_stop (layout : Layout) (allocator : Allocator) : allocator.top ≤ (allocator.place layout).stop :=
  Nat.le_trans (allocator.top_le_start layout) (Nat.le_add_right ..)

theorem carved_fresh (capacity : Nat) (rule : Rule) : Carved capacity ⟨rule, 0, []⟩ :=
  ⟨rfl, Nat.zero_le _, nofun, nofun, .nil⟩

theorem Carved.granted (carved : Carved capacity later) {layout : Layout}
    (fits : (later.place layout).stop ≤ capacity) :
    Carved capacity { later with
      top := (later.place layout).stop
      history := .granted (later.place layout) :: later.history } where
  ends := rfl
  within := fits
  aligned := by
    intro block member
    rcases List.mem_cons.mp member with rfl | old
    · exact (alignUp_isLeast later.top layout.align_pos).1.1
    · exact carved.aligned block old
  inside := by
    intro block member
    rcases List.mem_cons.mp member with rfl | old
    · exact Nat.le_refl _
    · exact Nat.le_trans (carved.inside block old) (later.top_le_stop layout)
  apart := by
    refine List.pairwise_cons.mpr ⟨fun block old => ?_, carved.apart⟩
    exact Nat.le_trans (carved.inside block old) (later.top_le_start layout)

/-- Whatever was asked of a carved buffer, it stays carved. -/
theorem Carves.carved (carves : Carves capacity start later) (carved : Carved capacity start) :
    Carved capacity later := by
  induction carves with
  | start => exact carved
  | granted layout fits _ ih => exact ih.granted fits
  | refused layout lacking _ ih => exact ⟨ih.ends, ih.within, ih.aligned, ih.inside, ih.apart⟩
  | freed block _ ih => exact ⟨ih.ends, ih.within, ih.aligned, ih.inside, ih.apart⟩

/-- What was handed out stays handed out. -/
theorem Carves.top_le (carves : Carves capacity start later) : start.top ≤ later.top := by
  induction carves with
  | start => exact Nat.le_refl _
  | @granted later layout fits _ ih => exact Nat.le_trans ih (later.top_le_stop layout)
  | refused layout lacking _ ih => exact ih
  | freed block _ ih => exact ih

theorem Carves.grants (carves : Carves capacity start later) : start.history.grants <:+ later.history.grants := by
  induction carves with
  | start => exact List.suffix_refl _
  | granted layout fits _ ih => exact ih.trans (List.suffix_cons ..)
  | refused layout lacking _ ih => exact ih
  | freed block _ ih => exact ih

/-- As long as no block is granted, no byte is handed out. -/
theorem Carves.top_eq (carves : Carves capacity start later)
    (same : later.history.grants = start.history.grants) : later.top = start.top := by
  induction carves with
  | start => rfl
  | @granted later layout fits before _ =>
    have longer : (_ :: later.history.grants).length = start.history.grants.length := congrArg List.length same
    have shorter := before.grants.length_le
    rw [List.length_cons] at longer
    omega
  | refused layout lacking _ ih => exact ih same
  | freed block _ ih => exact ih same

/-- The latest block lies behind all that were handed out before it. -/
theorem Carved.top_le_latest (carved : Carved capacity later) (earlier : Carved capacity start) {block : Block}
    (latest : later.history.grants = block :: start.history.grants) : start.top ≤ block.start := by
  have apart := carved.apart
  rw [latest, List.pairwise_cons] at apart
  rw [earlier.ends]
  cases first : start.history.grants.head? with
  | none => exact Nat.zero_le _
  | some earlier => exact apart.1 earlier (List.mem_of_head? first)

end Allocator

/-- Whatever is dealt with the allocator of a buffer carves the buffer. -/
theorem Pool.Dealt.carves {start pool : Pool} (dealt : start.Dealt pool) {id : AllocatorId} {capacity : Nat}
    (rule : (start.get id).rule = .endsWithin capacity) :
    (pool.get id).rule = .endsWithin capacity ∧ (start.get id).Carves capacity (pool.get id) := by
  induction dealt with
  | start => exact ⟨rule, .start⟩
  | @allocated pool own layout _ ih =>
    obtain ⟨sameRule, carves⟩ := ih
    rw [Pool.allocate]
    by_cases same : id = own
    · subst same
      by_cases fits : ((pool.get id).place layout).stop ≤ capacity
      · have granted : (pool.get id).admits layout = true := by
          rw [Allocator.admits, sameRule]
          exact decide_eq_true fits
        simp only [Allocator.allocate, granted, ↓reduceIte, Pool.get_set]
        exact ⟨sameRule, .granted layout fits carves⟩
      · have refused : (pool.get id).admits layout = false := by
          rw [Allocator.admits, sameRule]
          exact decide_eq_false fits
        simp only [Allocator.allocate, refused, Bool.false_eq_true, ↓reduceIte, Pool.get_set]
        exact ⟨sameRule, .refused layout (Nat.lt_of_not_le fits) carves⟩
    · simp only [Pool.get_set, if_neg same]
      exact ⟨sameRule, carves⟩
  | @freed pool own block _ ih =>
    obtain ⟨sameRule, carves⟩ := ih
    rw [Pool.free, Pool.get_set]
    by_cases same : id = own
    · subst same
      rw [if_pos rfl]
      exact ⟨sameRule, .freed block carves⟩
    · rw [if_neg same]
      exact ⟨sameRule, carves⟩

/-- The buffer before and after it was used, but not reset. -/
structure StackBuffer.Served (before after : StackBuffer) : Prop where
  capacity : after.capacity = before.capacity
  carves : before.allocator.Carves before.capacity after.allocator
  used : before.used ≤ after.used
  grants : before.history.grants <:+ after.history.grants

namespace StackBuffer

/-- A buffer takes everything over from its allocator, whose rule is always the same. -/
theorem allocator_after {buffer : StackBuffer} {allocator : Allocator}
    (rule : allocator.rule = .endsWithin buffer.capacity) : (buffer.after allocator).allocator = allocator := by
  cases allocator
  subst rule
  rfl

theorem served_of_dealt {buffer : StackBuffer} {other : Allocator} {pool : Pool}
    (dealt : Pool.Dealt ⟨buffer.allocator, other⟩ pool) : buffer.Served (buffer.after pool.a) := by
  have rule : (Pool.get ⟨buffer.allocator, other⟩ .a).rule = .endsWithin buffer.capacity := rfl
  obtain ⟨sameRule, carves⟩ := dealt.carves rule
  have taken : (buffer.after pool.a).allocator = pool.a := allocator_after sameRule
  refine ⟨rfl, ?_, carves.top_le, carves.grants⟩
  rw [taken]
  exact carves

theorem served_refl (buffer : StackBuffer) : buffer.Served buffer :=
  ⟨rfl, .start, Nat.le_refl _, List.suffix_refl _⟩

theorem served_free (buffer : StackBuffer) (block : Block) : buffer.Served (buffer.free block) := by
  have dealt : Pool.Dealt ⟨buffer.allocator, ⟨.endsWithin 0, 0, []⟩⟩
      (Pool.free .a block ⟨buffer.allocator, ⟨.endsWithin 0, 0, []⟩⟩) := .freed .a block .start
  exact served_of_dealt dealt

theorem served_allocate (buffer : StackBuffer) (layout : Layout) : buffer.Served (buffer.allocate layout).2 := by
  have dealt : Pool.Dealt ⟨buffer.allocator, ⟨.endsWithin 0, 0, []⟩⟩
      (Pool.allocate .a layout ⟨buffer.allocator, ⟨.endsWithin 0, 0, []⟩⟩).2 := .allocated .a layout .start
  exact served_of_dealt dealt

/-- A block is granted exactly if it fits behind the blocks that are there, and starts there. -/
theorem allocate_eq (buffer : StackBuffer) (layout : Layout) :
    buffer.allocate layout =
      if (buffer.allocator.place layout).stop ≤ buffer.capacity then
        (some (buffer.allocator.place layout), { buffer with
          top := (buffer.allocator.place layout).stop
          history := .granted (buffer.allocator.place layout) :: buffer.history })
      else (none, { buffer with history := .refused layout :: buffer.history }) := by
  have decides : buffer.allocator.admits layout =
      decide ((buffer.allocator.place layout).stop ≤ buffer.capacity) := rfl
  unfold StackBuffer.allocate Allocator.allocate
  rw [decides]
  by_cases fits : (buffer.allocator.place layout).stop ≤ buffer.capacity
  · simp only [fits, decide_true, ↓reduceIte]
    rfl
  · simp only [fits, decide_false, Bool.false_eq_true, ↓reduceIte]
    rfl

end StackBuffer

end Containers
