import Containers.Element.Basic
import Containers.Proofs.Carving
import Containers.Proofs.DoublingVectors

/-! A vector that is alone on a stack buffer. Every buffer that it grows to is carved off
behind the ones before, which are freed but never reclaimed, so that the bytes handed out
are those of the whole chain of doubled capacities. The first link of the chain that ends
beyond the buffer is refused, and refused again whenever it is asked for. -/
namespace Containers

/-- A multiple is not rounded up. -/
theorem alignUp_of_dvd {n align : Nat} (positive : 0 < align) (whole : align ∣ n) : alignUp n align = n := by
  have least := alignUp_isLeast n positive
  exact Nat.le_antisymm (least.2 ⟨whole, Nat.le_refl n⟩) least.1.2

namespace History
variable {element : Layout} {buffers : Nat} {history : History}

/-- The blocks of the chain together are one smallest block short of the next block. -/
theorem Doubles.bytes_grants (doubles : Doubles element [] buffers history) :
    bytes history.grants + 16 * element.size = 16 * element.size * 2 ^ buffers := by
  induction doubles with
  | start => simp [grants, bytes]
  | @granted buffers later block next _ ih =>
    have size : block.layout.size = 16 * element.size * 2 ^ buffers := by
      rw [next]
      exact Nat.mul_right_comm 16 (2 ^ buffers) element.size
    change block.layout.size + bytes later.grants + _ = _
    rw [size, Nat.add_assoc, ih, Nat.pow_succ, ← Nat.mul_assoc, Nat.mul_two]
  | refused _ _ ih => exact ih
  | freed _ _ ih => exact ih

/-- Every block of the chain is a run of whole elements. -/
theorem Doubles.whole (doubles : Doubles element [] buffers history) (whole : element.align ∣ element.size) :
    ∀ block ∈ history.grants, block.layout.align = element.align ∧ element.align ∣ block.layout.size := by
  induction doubles with
  | start => exact nofun
  | granted next _ ih =>
    intro block member
    rcases List.mem_cons.mp member with rfl | earlier
    · rw [next]
      exact ⟨rfl, Nat.dvd_mul_left_of_dvd whole _⟩
    · exact ih block earlier
  | refused _ _ ih => exact ih
  | freed _ _ ih => exact ih

end History

namespace Allocator
variable {capacity : Nat} {start allocator : Allocator}

/-- Where the bytes handed out are a multiple of the alignment, the next block follows at once. -/
theorem stop_place (layout : Layout) (whole : layout.align ∣ allocator.top) :
    (allocator.place layout).stop = allocator.top + layout.size := by
  rw [Block.stop, place, alignUp_of_dvd layout.align_pos whole]

/-- Between blocks that end where the next one may start there is no padding. -/
theorem Carves.top_eq_bytes {align : Nat} (carves : Carves capacity start allocator) (bottom : start.top = 0)
    (fresh : start.history = [])
    (whole : ∀ block ∈ allocator.history.grants, block.layout.align = align ∧ align ∣ block.layout.size) :
    allocator.top = History.bytes allocator.history.grants ∧ align ∣ allocator.top := by
  induction carves with
  | start =>
    rw [bottom, fresh]
    exact ⟨rfl, Nat.dvd_zero align⟩
  | @granted later layout _ _ ih =>
    obtain ⟨exact, divides⟩ := ih fun block member => whole block (List.mem_cons_of_mem _ member)
    obtain ⟨rfl, sized⟩ : layout.align = align ∧ align ∣ layout.size := whole _ List.mem_cons_self
    change (later.place layout).stop = layout.size + History.bytes later.history.grants ∧
      _ ∣ (later.place layout).stop
    rw [stop_place layout divides]
    exact ⟨by omega, Nat.dvd_add divides sized⟩
  | refused _ _ _ ih => exact ih whole
  | freed _ _ ih => exact ih whole

end Allocator

namespace Vector
variable {α : Type} [Stored α] {size room : Nat} {other : Allocator} {given items : List α} {host : Host (Vector α)}

/-- A fresh stack buffer of so many bytes. -/
def freshBuffer (size : Nat) : StackBuffer :=
  { capacity := size }

/-- The allocators of a vector on a fresh stack buffer. -/
def lonePool (size : Nat) (other : Allocator) : Pool :=
  ⟨(freshBuffer size).allocator, other⟩

/-- These elements were pushed onto a vector that is alone on its buffer. -/
structure Alone (size : Nat) (other : Allocator) (items : List α) (host : Host (Vector α)) : Prop where
  items_eq : host.container.items.toList = items
  doubled : Doubled .a (lonePool size other) items.length host
  dealt : (lonePool size other).Dealt host.pool
  ledger : Ledger (lonePool size other) host

/-- The bytes of the first buffers of the chain. -/
def chainBytes (α : Type) [Stored α] (buffers : Nat) : Nat :=
  16 * elementSize α * (2 ^ buffers - 1)

theorem chainBytes_succ (buffers : Nat) :
    chainBytes α (buffers + 1) = chainBytes α buffers + 16 * elementSize α * 2 ^ buffers := by
  have positive : 1 ≤ 2 ^ buffers := Nat.two_pow_pos buffers
  rw [chainBytes, chainBytes, ← Nat.mul_add, Nat.pow_succ]
  congr 1
  omega

theorem chainBytes_mono {fewer more : Nat} (le : fewer ≤ more) : chainBytes α fewer ≤ chainBytes α more :=
  Nat.mul_le_mul_left _ (Nat.sub_le_sub_right (Nat.pow_le_pow_right (by decide) le) 1)

/-- What is handed out of the buffer are the blocks of the chain, without padding. -/
theorem Alone.used_eq (alone : Alone size other items host) (whole : (Stored.layout α).align ∣ elementSize α) :
    ∃ buffers address, IsLeast {count | items.length ≤ reach count} buffers ∧
      host.container.engine = .heap .a (reach buffers) address ∧
      host.pool.a.top = chainBytes α buffers ∧ chainBytes α buffers ≤ size ∧
      (Stored.layout α).align ∣ host.pool.a.top ∧ host.pool.a.rule = .endsWithin size := by
  obtain ⟨buffers, address, least, heap, doubles⟩ := alone.doubled.chain
  have limited : ((lonePool size other).get .a).rule = .endsWithin size := rfl
  obtain ⟨rule, carves⟩ := alone.dealt.carves limited
  have doubles : History.Doubles (Stored.layout α) [] buffers host.pool.a.history := doubles
  have carves : (freshBuffer size).allocator.Carves size host.pool.a := carves
  obtain ⟨used, divides⟩ := carves.top_eq_bytes rfl rfl (doubles.whole whole)
  have carved := carves.carved (Allocator.carved_fresh size _)
  have total : host.pool.a.top = chainBytes α buffers := by
    have sum := doubles.bytes_grants
    rw [used, chainBytes, Nat.mul_sub, Nat.mul_one]
    exact Nat.eq_sub_of_add_eq sum
  exact ⟨buffers, address, least, heap, total, total ▸ carved.within, divides, rule⟩

theorem Alone.size_eq (alone : Alone size other items host) : host.container.size = items.length := by
  rw [← alone.items_eq, Array.length_toList, Storage.size]

/-- The chain never goes beyond the links that lie within the buffer together. -/
theorem Alone.length_le (alone : Alone size other items host) (whole : (Stored.layout α).align ∣ elementSize α)
    (greatest : IsGreatest {buffers | chainBytes α buffers ≤ size} room) : items.length ≤ reach room := by
  obtain ⟨buffers, -, least, -, -, within, -⟩ := alone.used_eq whole
  have enough : items.length ≤ reach buffers := least.1
  exact enough.trans (reach_strictMono.monotone (greatest.2 within))

theorem alone_start (size : Nat) (other : Allocator) :
    Alone size other [] (⟨⟨.heap .a 0 0, #[]⟩, lonePool size other⟩ : Host (Vector α)) where
  items_eq := rfl
  doubled := doubled_start .a _
  dealt := .start
  ledger := ledger_start (Engine.owned_emptied (.heap .a 0 0)) _

/-- The next link of the chain can be counted as long as the last one that lies within the buffer can. -/
theorem reach_countable {buffers : Nat} (sized : 0 < elementSize α)
    (countable : 16 * elementSize α * 2 ^ room ≤ maxBytes) (le : buffers ≤ room) :
    reach (buffers + 1) * elementSize α ≤ maxBytes ∧ reach (buffers + 1) ≤ maxCount := by
  have bytes : reach (buffers + 1) * elementSize α ≤ maxBytes := by
    calc 16 * 2 ^ buffers * elementSize α = 16 * elementSize α * 2 ^ buffers := Nat.mul_right_comm ..
      _ ≤ 16 * elementSize α * 2 ^ room := Nat.mul_le_mul_left _ (Nat.pow_le_pow_right (by decide) le)
      _ ≤ maxBytes := countable
  have fewer : reach (buffers + 1) ≤ reach (buffers + 1) * elementSize α := Nat.le_mul_of_pos_right _ sized
  exact ⟨bytes, fewer.trans (bytes.trans (by decide))⟩

/-- A vector that cannot grow has reached the last link that lies within the buffer, and is
refused the next one. -/
theorem Alone.stuck (alone : Alone size other items host) {fault : Fault} (sized : 0 < elementSize α)
    (whole : (Stored.layout α).align ∣ elementSize α)
    (greatest : IsGreatest {buffers | chainBytes α buffers ≤ size} room)
    (countable : 16 * elementSize α * 2 ^ room ≤ maxBytes) (stuck : Stuck host fault) :
    items.length = reach room ∧ host.container.capacity = reach room ∧
      host.pool.a.top = chainBytes α room ∧
      fault = .refused ((Stored.layout α).array (reach (room + 1))) := by
  obtain ⟨buffers, address, least, heap, used, within, divides, rule⟩ := alone.used_eq whole
  have links : buffers ≤ room := greatest.2 within
  have capacity : host.container.capacity = reach buffers := congrArg Engine.capacity heap
  have next : Vector.doubled (reach buffers) = reach (buffers + 1) := doubled_reach buffers
  obtain ⟨bytes, count⟩ := reach_countable sized countable links
  cases stuck with
  | overflow full large =>
    rw [capacity] at large
    simp only [Vector.doubled] at next
    split at next <;> omega
  | denied full denied =>
    rw [capacity, next] at denied
    obtain ⟨-, atPeak⟩ := alone.doubled.full full
    cases denied with
    | fixed inline => cases heap.symm.trans inline
    | overflow _ large => omega
    | refused heap' _ refuses =>
      obtain ⟨rfl, -, -⟩ := Engine.heap.inj (heap.symm.trans heap')
      have beyond : ¬ chainBytes α (buffers + 1) ≤ size := by
        have refuses : host.pool.a.admits ((Stored.layout α).array (reach (buffers + 1))) = false := refuses
        have same : reach (buffers + 1) * elementSize α = 16 * elementSize α * 2 ^ buffers :=
          Nat.mul_right_comm 16 (2 ^ buffers) _
        have stop := Allocator.stop_place ((Stored.layout α).array (reach (buffers + 1))) divides
        rw [Allocator.admits, rule, Rule.endsWithin, decide_eq_false_iff_not, stop] at refuses
        rw [chainBytes_succ, ← used, ← same]
        exact refuses
      have last : buffers = room := by
        by_contra differs
        have more : buffers + 1 ≤ room := by omega
        exact beyond ((chainBytes_mono more).trans greatest.1)
      subst last
      exact ⟨atPeak.symm.trans capacity, capacity, used, rfl⟩

/-- A push appends while the chain lies within the buffer, and is refused the next link then. -/
theorem tryPush_alone (alone : Alone size other items host) (sized : 0 < elementSize α)
    (whole : (Stored.layout α).align ∣ elementSize α)
    (greatest : IsGreatest {buffers | chainBytes α buffers ≤ size} room)
    (countable : 16 * elementSize α * 2 ^ room ≤ maxBytes) (x : α) :
    Leads (tryPush x) host
      (fun _ after => items.length < reach room ∧ Alone size other (items ++ [x]) after)
      fun fault after => items.length = reach room ∧ host.container.capacity = reach room ∧
        fault = .refused ((Stored.layout α).array (reach (room + 1))) ∧ after.container = host.container ∧
        after.pool.a.top = chainBytes α room ∧ Alone size other items after := by
  have facts := ((tryPush_leads host x).and (strides_tryPush x host)).and
    (((managed_tryPush x).deals host).and ((managed_tryPush x).accounts _ host alone.ledger))
  refine facts.mono ?_ ?_
  · rintro _ after ⟨⟨⟨pushed, -⟩, stride⟩, dealt, ledger⟩
    have items' : after.container.items.toList = items ++ [x] := by rw [pushed, Array.toList_push, alone.items_eq]
    have length : after.container.size = (items ++ [x]).length := by rw [← items', Array.length_toList, Storage.size]
    have doubled := stride.doubled (Nat.ne_of_gt sized) alone.doubled
    rw [length, Nat.max_eq_right (by simp)] at doubled
    have alone' : Alone size other (items ++ [x]) after := ⟨items', doubled, alone.dealt.trans dealt, ledger⟩
    have within := alone'.length_le whole greatest
    rw [List.length_append] at within
    exact ⟨within, alone'⟩
  · rintro fault after ⟨⟨⟨kept, stuck⟩, stride⟩, dealt, ledger⟩
    obtain ⟨length, capacity, -, refused⟩ := alone.stuck sized whole greatest countable stuck
    have doubled := stride.doubled (Nat.ne_of_gt sized) alone.doubled
    rw [kept, alone.size_eq, Nat.max_self] at doubled
    have alone' : Alone size other items after := ⟨kept ▸ alone.items_eq, doubled, alone.dealt.trans dealt, ledger⟩
    obtain ⟨buffers, _, -, heap, used, -⟩ := alone'.used_eq whole
    have links : reach buffers = reach room := by
      rw [← capacity, ← kept]
      exact (congrArg Engine.capacity heap).symm
    rw [reach_strictMono.injective links] at used
    exact ⟨length, capacity, refused, kept, used, alone'⟩

/-- What a push onto a vector on a fresh stack buffer does after these elements were pushed,
with or without success, where so many links of the chain lie within the buffer. As long as
they have room the element is appended. From then on the layout of the next link is refused,
and the vector and the bytes handed out stay as they are, although every buffer but the last
was freed. -/
def Fills (size room : Nat) (given : List α) (x : α) (before : Host (Vector α)) (step : Step (Vector α) Unit) : Prop :=
  if given.length < reach room then
    step.outcome = .ok () ∧ step.after.container.items.toList = given ++ [x]
  else
    (∃ layout, step.outcome = .error (.refused layout) ∧
      layout.size = 16 * elementSize α * 2 ^ room ∧ layout.align = (Stored.layout α).align) ∧
    step.after.container = before.container ∧ before.container.capacity = reach room ∧
    before.container.items.toList = given.take (reach room) ∧
    ((freshBuffer size).after step.after.pool.a).used = 16 * elementSize α * (2 ^ room - 1) ∧
    step.after.pool.a.history.outstanding = (Holding.owned before.container .a).toList

theorem fills_step (alone : Alone size other (given.take (reach room)) host) (sized : 0 < elementSize α)
    (whole : (Stored.layout α).align ∣ elementSize α)
    (greatest : IsGreatest {buffers | chainBytes α buffers ≤ size} room)
    (countable : 16 * elementSize α * 2 ^ room ≤ maxBytes) (x : α) :
    Fills size room given x host ((tryPush x).step host) ∧
      Alone size other ((given ++ [x]).take (reach room)) ((tryPush x).step host).after := by
  refine (leads_iff_step (tryPush x) fun outcome after => Fills size room given x host ⟨outcome, after⟩ ∧
    Alone size other ((given ++ [x]).take (reach room)) after).mp ?_
  refine (tryPush_alone alone sized whole greatest countable x).mono ?_ ?_
  · rintro _ after ⟨few, pushed⟩
    have few : given.length < reach room := by
      rw [List.length_take] at few
      omega
    have every : (given ++ [x]).take (reach room) = given ++ [x] :=
      List.take_of_length_le (by rw [List.length_append]; exact few)
    rw [List.take_of_length_le few.le] at pushed
    rw [every, Fills, if_pos few]
    exact ⟨⟨rfl, pushed.items_eq⟩, pushed⟩
  · rintro _ after ⟨many, capacity, rfl, kept, used, alone'⟩
    have many : reach room ≤ given.length := by
      rw [List.length_take] at many
      omega
    rw [Fills, if_neg many.not_gt, List.take_append_of_le_length many]
    have size_eq : reach (room + 1) * elementSize α = 16 * elementSize α * 2 ^ room :=
      Nat.mul_right_comm 16 (2 ^ room) _
    have outstanding : after.pool.a.history.outstanding = (Holding.owned after.container .a).toList ++ [] :=
      (alone'.ledger .a).2
    rw [List.append_nil, kept] at outstanding
    exact ⟨⟨⟨_, rfl, size_eq, rfl⟩, kept, capacity, alone.items_eq, used, outstanding⟩, alone'⟩

/-- A vector that is the only one on a fresh stack buffer takes as many elements as the last
link of the chain has room for that lies within the buffer with the ones before it, and no
push after that has an effect. -/
theorem pushes_exhaust (size room : Nat) (other : Allocator) (sized : 0 < elementSize α)
    (whole : (Stored.layout α).align ∣ elementSize α)
    (greatest : IsGreatest {buffers | 16 * elementSize α * (2 ^ buffers - 1) ≤ size} room)
    (countable : 16 * elementSize α * 2 ^ room ≤ maxBytes) (xs : List α) :
    Session.Follows tryPush (fun given x _ => given ++ [x]) (Fills size room) xs
      ⟨⟨.heap .a 0 0, #[]⟩, lonePool size other⟩ [] :=
  Session.follows_of_step (fun host given => Alone size other (given.take (reach room)) host)
    (fun x _ _ alone => fills_step alone sized whole greatest countable x) xs
    (List.take_nil.symm ▸ alone_start size other)

/-- Of 256 bytes one buffer of sixteen numbers takes 128, and there is none for thirty-two. -/
theorem pushes_exhaust_numbers :
    IsGreatest {buffers | 16 * elementSize Int64 * (2 ^ buffers - 1) ≤ 256} 1 ∧
      Session.Follows tryPush (fun given x _ => given ++ [x]) (Fills 256 1) (List.replicate 18 (7 : Int64))
        ⟨⟨.heap .a 0 0, #[]⟩, lonePool 256 ⟨.unlimited, 0, []⟩⟩ [] := by
  have greatest : IsGreatest {buffers | 16 * elementSize Int64 * (2 ^ buffers - 1) ≤ 256} 1 := by
    refine ⟨show 16 * elementSize Int64 * (2 ^ 1 - 1) ≤ 256 by decide, fun buffers within => ?_⟩
    by_contra more
    have mono : chainBytes Int64 2 ≤ chainBytes Int64 buffers := chainBytes_mono (by omega)
    exact absurd (mono.trans within) (by decide)
  exact ⟨greatest, pushes_exhaust 256 1 _ (by decide) (by decide) greatest (by decide) _⟩

end Vector

end Containers
