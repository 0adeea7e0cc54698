import Containers.Storage.Slots

/-! What the moves of elements inside a buffer leave in each slot. A move is
described slot by slot in terms of the buffer before it, so that the order in which
the slots are copied does not show; the edits built from moves are then edits of
the list that the buffer holds. -/
namespace Containers.Slots
variable {α : Type} {slots : Array α} {start position other n count : Nat} {x : α}

theorem getElem?_copy {source target : Nat} (live : target < slots.size) (there : source < slots.size) :
    (copy slots source target)[other]? = if other = target then slots[source]? else slots[other]? := by
  rw [copy, Array.getElem?_eq_getElem there, Array.getElem?_setIfInBounds]
  by_cases same : other = target
  · subst same
    simp [live]
  · simp [same, Ne.symm same]

@[simp] theorem size_copy {source target : Nat} : (copy slots source target).size = slots.size := by
  unfold copy
  split
  · exact Array.size_setIfInBounds ..
  · rfl

@[simp] theorem size_moveUp : (moveUp slots start n count).size = slots.size := by
  induction count generalizing slots with
  | zero => rfl
  | succ count ih => rw [moveUp, ih, size_copy]

@[simp] theorem size_moveDown : (moveDown slots start n count).size = slots.size := by
  induction count generalizing slots start with
  | zero => rfl
  | succ count ih => rw [moveDown, ih, size_copy]

/-- Moving up shows the old slots `n` places higher; the last slot is read before
another one is written over it. -/
theorem getElem?_moveUp (room : start + count + n ≤ slots.size) :
    (moveUp slots start n count)[other]? =
      if start + n ≤ other ∧ other < start + n + count then slots[other - n]? else slots[other]? := by
  induction count generalizing slots with
  | zero => rw [moveUp, if_neg (by omega)]
  | succ count ih =>
    have copied : ∀ i, (copy slots (start + count) (start + count + n))[i]? =
        if i = start + count + n then slots[start + count]? else slots[i]? :=
      fun i => getElem?_copy (by omega) (by omega)
    rw [moveUp, ih (by rw [size_copy]; omega), copied, copied]
    by_cases last : other = start + count + n
    · subst last
      rw [if_neg (by omega), if_pos rfl, if_pos (by omega), Nat.add_sub_cancel]
    · rw [if_neg last]
      by_cases inside : start + n ≤ other ∧ other < start + n + count
      · rw [if_pos inside, if_neg (by omega), if_pos (by omega)]
      · rw [if_neg inside, if_neg (by omega)]

/-- Moving down shows the old slots `n` places lower; the first slot is read before
another one is written over it. -/
theorem getElem?_moveDown (above : n ≤ start) (room : start + count ≤ slots.size) :
    (moveDown slots start n count)[other]? =
      if start - n ≤ other ∧ other < start - n + count then slots[other + n]? else slots[other]? := by
  induction count generalizing slots start with
  | zero => rw [moveDown, if_neg (by omega)]
  | succ count ih =>
    have copied : ∀ i, (copy slots start (start - n))[i]? = if i = start - n then slots[start]? else slots[i]? :=
      fun i => getElem?_copy (by omega) (by omega)
    rw [moveDown, ih (by omega) (by rw [size_copy]; omega), copied, copied]
    by_cases first : other = start - n
    · subst first
      rw [if_neg (by omega), if_pos rfl, if_pos (by omega), Nat.sub_add_cancel above]
    · rw [if_neg first]
      by_cases inside : start + 1 - n ≤ other ∧ other < start + 1 - n + count
      · rw [if_pos inside, if_neg (by omega), if_pos (by omega)]
      · rw [if_neg inside, if_neg (by omega)]

theorem getElem?_fill (room : start + count ≤ slots.size) :
    (fill slots start x count)[other]? =
      if start ≤ other ∧ other < start + count then some x else slots[other]? := by
  induction count generalizing slots start with
  | zero => rw [fill, if_neg (by omega)]
  | succ count ih =>
    rw [fill, ih (by rw [Array.size_setIfInBounds]; omega), Array.getElem?_setIfInBounds]
    by_cases first : start = other
    · subst first
      rw [if_neg (by omega), if_pos rfl, if_pos (by omega), if_pos (by omega)]
    · rw [if_neg first]
      by_cases inside : start + 1 ≤ other ∧ other < start + 1 + count
      · rw [if_pos inside, if_pos (by omega)]
      · rw [if_neg inside, if_neg (by omega)]

theorem getElem?_insert (within : position ≤ slots.size) :
    (insert slots position n x)[other]? =
      if other < position then slots[other]?
      else if other < position + n then some x else slots[other - n]? := by
  have wider : (slots ++ Array.replicate n x).size = slots.size + n := by simp
  rw [insert, openGap, getElem?_fill (by rw [size_moveUp]; omega), getElem?_moveUp (by omega)]
  by_cases before : other < position
  · rw [if_pos before, if_neg (by omega), if_neg (by omega), Array.getElem?_append_left (by omega)]
  · rw [if_neg before]
    by_cases gap : other < position + n
    · rw [if_pos gap, if_pos ⟨by omega, gap⟩]
    · rw [if_neg gap, if_neg (by omega)]
      by_cases moved : other < slots.size + n
      · rw [if_pos (by omega), Array.getElem?_append_left (by omega)]
      · rw [if_neg (by omega), Array.getElem?_eq_none (by omega), Array.getElem?_eq_none (by omega)]

/-- The copies stand before what was at the position, and the tail behind them. -/
theorem toList_insert (within : position ≤ slots.size) :
    (insert slots position n x).toList =
      slots.toList.take position ++ (List.replicate n x ++ slots.toList.drop position) := by
  apply List.ext_getElem?
  intro i
  rw [Array.getElem?_toList, getElem?_insert within, List.getElem?_append, List.getElem?_append,
    List.length_take_of_le (by simpa using within), List.length_replicate]
  by_cases before : i < position
  · rw [if_pos before, if_pos before, List.getElem?_take_of_lt before, Array.getElem?_toList]
  · rw [if_neg before, if_neg before]
    by_cases gap : i < position + n
    · rw [if_pos gap, if_pos (by omega), List.getElem?_replicate, if_pos (by omega)]
    · rw [if_neg gap, if_neg (by omega), List.getElem?_drop, Array.getElem?_toList]
      congr 1
      omega

variable {stop : Nat}

/-- The tail follows what was before the range. -/
theorem toList_erase (ordered : start ≤ stop) (within : stop ≤ slots.size) :
    (erase slots start stop).toList = slots.toList.take start ++ slots.toList.drop stop := by
  apply List.ext_getElem?
  intro i
  rw [Array.getElem?_toList, erase, Array.getElem?_extract, size_moveDown, List.getElem?_append,
    List.length_take_of_le (by rw [Array.length_toList]; omega)]
  by_cases inside : i < slots.size - (stop - start)
  · rw [if_pos (by omega), Nat.zero_add, getElem?_moveDown (by omega) (by omega)]
    by_cases before : i < start
    · rw [if_neg (by omega), if_pos before, List.getElem?_take_of_lt before, Array.getElem?_toList]
    · rw [if_pos (by omega), if_neg before, List.getElem?_drop, Array.getElem?_toList]
      congr 1
      omega
  · rw [if_neg (by omega), if_neg (by omega), List.getElem?_eq_none]
    rw [List.length_drop, Array.length_toList]
    omega

/-- The last element stands in the hole, and the others stay. -/
theorem getElem?_swapErase (live : position < slots.size) (within : other < slots.size - 1) :
    (swapErase slots position)[other]? =
      if other = position then slots[slots.size - 1]? else slots[other]? := by
  rw [swapErase, Array.getElem?_pop, size_copy, if_pos within, getElem?_copy live (by omega)]

theorem size_swapErase : (swapErase slots position).size = slots.size - 1 := by
  rw [swapErase, Array.size_pop, size_copy]

theorem toList_swapErase {last : α} (live : position < slots.size) (isLast : slots.back? = some last) :
    (swapErase slots position).toList = slots.toList.dropLast.set position last := by
  apply List.ext_getElem?
  intro i
  rw [Array.getElem?_toList, List.getElem?_set, List.length_dropLast, Array.length_toList]
  by_cases inside : i < slots.size - 1
  · rw [getElem?_swapErase live inside, ← Array.back?_eq_getElem?, isLast, List.getElem?_dropLast,
      Array.length_toList, if_pos inside, Array.getElem?_toList]
    by_cases hole : i = position
    · rw [if_pos hole, if_pos hole.symm, if_pos (hole ▸ inside)]
    · rw [if_neg hole, if_neg (Ne.symm hole)]
  · rw [Array.getElem?_eq_none (by rw [size_swapErase]; omega)]
    by_cases hole : position = i
    · rw [if_pos hole, if_neg (by omega)]
    · rw [if_neg hole, List.getElem?_eq_none (by simp; omega)]

end Containers.Slots
