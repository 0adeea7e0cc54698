import Containers.Flat.Command
import Containers.Proofs.Arranging
import Mathlib.Data.List.Destutter

/-! What searching and sorting do to a run of pairs, said of the list that the run holds.
A bisection finds the place where a test begins to fail, so searches in a run in order count
pairs. Sorting a run arranges it, and gathering the pairs to keep at the front leaves the
first pair of every key: the same list that filing the pairs one after another leaves. -/
namespace Containers

namespace Listing
variable {α κ : Type} [Keyed α κ] [Ord κ] {k : κ} {x value : α} {values : List α}

/-- Another key follows. -/
def Differs (x y : α) : Prop :=
  compare (Keyed.key y) (Keyed.key x) ≠ .eq

instance : DecidableRel (Differs : α → α → Prop) :=
  fun x y => inferInstanceAs (Decidable (compare (Keyed.key y) (Keyed.key x) ≠ .eq))

/-- Values that are filed one after another under keys that are not filed yet. -/
abbrev filed (values : List α) : List α :=
  values.foldl (fun filed value => file value filed) []

theorem head?_under (k : κ) (values : List α) : (under k values).head? = find? k values :=
  List.head?_filter

theorem sorted_overwrite {ν : Type} {entries : List (κ × ν)} (sorted : Sorted entries) (k : κ) (v : ν) :
    Sorted (overwrite k v entries) := by
  have spelling : ∀ entry : κ × ν, Keyed.key (if compare (Keyed.key entry) k = .eq then (entry.1, v) else entry) =
      Keyed.key entry := by
    intro entry
    split <;> rfl
  apply List.pairwise_map.mpr
  apply sorted.imp
  intro entry other less
  rwa [spelling, spelling]

variable [Std.TransOrd κ]

/-- Of values in order, those that follow another key have strictly increasing keys. -/
theorem sorted_destutter' (inOrder : InOrder (x :: values)) : Sorted (values.destutter' Differs x) := by
  induction values generalizing x with
  | nil => exact List.pairwise_singleton _ x
  | cons y rest ih =>
    obtain ⟨above, inOrderRest⟩ := List.pairwise_cons.mp inOrder
    by_cases differs : Differs x y
    · rw [List.destutter'_cons_pos _ differs]
      apply List.pairwise_cons.mpr
      constructor
      · intro z member
        obtain ⟨above', -⟩ := List.pairwise_cons.mp inOrderRest
        have less : compare (Keyed.key x) (Keyed.key y) = .lt := by
          have notAbove := above y List.mem_cons_self
          cases order : compare (Keyed.key x) (Keyed.key y) with
          | lt => rfl
          | eq => exact absurd (Std.OrientedCmp.eq_symm order) differs
          | gt =>
            rw [order] at notAbove
            cases notAbove
        rcases List.mem_cons.mp ((List.destutter'_sublist rest Differs y).subset member) with rfl | member
        · exact less
        · exact Std.TransCmp.lt_of_lt_of_isLE less (above' z member)
      · exact ih inOrderRest
    · rw [List.destutter'_cons_neg _ differs]
      exact ih (inOrder.sublist (List.Sublist.cons_cons x (List.sublist_cons_self y rest)))

/-- The first value of every key follows another key. -/
theorem find?_destutter' (k : κ) (x : α) (values : List α) :
    find? k (values.destutter' Differs x) = find? k (x :: values) := by
  induction values generalizing x with
  | nil => rfl
  | cons y rest ih =>
    by_cases differs : Differs x y
    · rw [List.destutter'_cons_pos _ differs, find?, List.find?_cons, find?, List.find?_cons]
      have later := ih y
      rw [find?, find?] at later
      rw [later]
    · have equal : compare (Keyed.key y) (Keyed.key x) = .eq := Decidable.of_not_not differs
      have together : compare (Keyed.key y) k = compare (Keyed.key x) k := Std.TransCmp.congr_left equal
      rw [List.destutter'_cons_neg _ differs, ih x, find?, find?]
      simp only [List.find?_cons, together]
      split
      · rfl
      · rfl

theorem sorted_file (sorted : Sorted values) (value : α) : Sorted (file value values) := by
  obtain ⟨before, x, after, rfl, same⟩ | ⟨before, after, rfl, parts⟩ := found_or_parts sorted (Keyed.key value)
  · rwa [file_found (parts_of_sorted sorted same) same]
  · rw [file_vacant parts]
    exact sorted_of_parts sorted parts

theorem sorted_filed (values : List α) : Sorted (filed values) := by
  induction values using List.reverseRecOn with
  | nil => exact List.Pairwise.nil
  | append_singleton values value ih =>
    rw [filed, List.foldl_append]
    exact sorted_file ih value

/-- Of values that are filed one after another, each key keeps the first. -/
theorem find?_filed (k : κ) (values : List α) : find? k (filed values) = find? k values := by
  induction values using List.reverseRecOn with
  | nil => rfl
  | append_singleton values value ih =>
    have joined : find? k (values ++ [value]) = (find? k values).or (find? k [value]) := List.find?_append
    rw [filed, List.foldl_append, joined, ← ih]
    change find? k (file value (filed values)) = _
    cases present : find? (Keyed.key value) (filed values) with
    | none =>
      rw [find?_file present]
      by_cases same : compare (Keyed.key value) k = .eq
      · have absent : find? k (filed values) = none := by rw [← find?_congr same, present]
        rw [if_pos same, absent]
        simp [find?, same]
      · have unmatched : find? k [value] = none := by simp [find?, same]
        rw [if_neg same, unmatched, Option.or_none]
    | some first =>
      rw [file_present value (sorted_filed values) present]
      by_cases same : compare (Keyed.key value) k = .eq
      · have found : find? k (filed values) = some first := by rw [← find?_congr same, present]
        rw [found, Option.some_or]
      · have unmatched : find? k [value] = none := by simp [find?, same]
        rw [unmatched, Option.or_none]

/-- Leaving out repeats of the arranged values is the same as filing the values in turn. -/
theorem destutter_arrange (values : List α) : (arrange values).destutter Differs = filed values := by
  have kept : Sorted ((arrange values).destutter Differs) ∧
      ∀ k : κ, find? k ((arrange values).destutter Differs) = find? k (arrange values) := by
    have inOrder := (arranges_arrange values).inOrder
    cases list : arrange values with
    | nil => exact ⟨List.Pairwise.nil, fun k => rfl⟩
    | cons x rest =>
      rw [list] at inOrder
      exact ⟨sorted_destutter' inOrder, fun k => find?_destutter' k x rest⟩
  apply Sorted.ext kept.1 (sorted_filed values)
  intro k
  rw [kept.2, find?_filed, ← head?_under, under_arrange, head?_under]

theorem length_filed_le (values : List α) : (filed values).length ≤ values.length := by
  rw [← destutter_arrange, ← length_arrange values]
  exact (List.destutter_sublist Differs _).length_le

end Listing

namespace Flat

section Swapping
variable {α : Type} {items : Array α} {i j count : Nat}

theorem getElem?_swapIfInBounds (inside : i < items.size) (inside' : j < items.size) (place : Nat) :
    (items.swapIfInBounds i j)[place]? =
      if j = place then items[i]? else if i = place then items[j]? else items[place]? := by
  rw [Array.swapIfInBounds_def, dif_pos inside, dif_pos inside', Array.getElem?_swap,
    Array.getElem?_eq_getElem inside, Array.getElem?_eq_getElem inside']

/-- What lies in front of both places stays in front. -/
theorem take_swapIfInBounds (inside : i < items.size) (inside' : j < items.size)
    (front : count ≤ i) (front' : count ≤ j) :
    (items.swapIfInBounds i j).toList.take count = items.toList.take count := by
  apply List.ext_getElem?
  intro place
  rw [List.getElem?_take, List.getElem?_take]
  split
  · rw [Array.getElem?_toList, getElem?_swapIfInBounds inside inside', if_neg (by omega), if_neg (by omega),
      Array.getElem?_toList]
  · rfl

/-- What lies behind both places stays behind. -/
theorem drop_swapIfInBounds (inside : i < items.size) (inside' : j < items.size)
    (behind : i < count) (behind' : j < count) :
    (items.swapIfInBounds i j).toList.drop count = items.toList.drop count := by
  apply List.ext_getElem?
  intro place
  rw [List.getElem?_drop, List.getElem?_drop, Array.getElem?_toList, getElem?_swapIfInBounds inside inside',
    if_neg (by omega), if_neg (by omega), Array.getElem?_toList]

end Swapping

section Bisection
variable {α : Type} {passes : α → Bool} {items : Array α} {place low high : Nat}

/-- The bisection ends at the place up to which the test passes and from which on it fails. -/
theorem bisect_eq (front : ∀ i x, i < place → items[i]? = some x → passes x = true)
    (back : ∀ i x, place ≤ i → items[i]? = some x → passes x = false) (above : low ≤ place) (below : place ≤ high)
    (within : high ≤ items.size) : bisect passes items low high = place := by
  induction low, high using bisect.induct passes items with
  | case1 low high less missing =>
    have inside : (low + high) / 2 < items.size := by omega
    rw [Array.getElem?_eq_getElem inside] at missing
    cases missing
  | case2 low high less x found passed ih =>
    unfold bisect
    rw [if_pos less, found]
    simp only [passed, ↓reduceIte]
    refine ih (Nat.lt_of_not_le fun behind => ?_) below within
    rw [back _ x behind found] at passed
    cases passed
  | case3 low high less x found failed ih =>
    unfold bisect
    rw [if_pos less, found]
    simp only [failed]
    refine ih above (Nat.le_of_not_lt fun before => ?_) (by omega)
    exact failed (front _ x before found)
  | case4 low high done =>
    unfold bisect
    rw [if_neg done]
    omega

theorem bisect_append {before after : List α} (list : items.toList = before ++ after)
    (front : ∀ x ∈ before, passes x = true) (back : ∀ x ∈ after, passes x = false) :
    bisect passes items 0 items.size = before.length := by
  have size : items.size = before.length + after.length := by
    rw [← Array.length_toList, list, List.length_append]
  refine bisect_eq ?_ ?_ (Nat.zero_le _) (by omega) (Nat.le_refl _)
  · intro i x less found
    rw [← Array.getElem?_toList, list, List.getElem?_append_left less] at found
    exact front x (List.mem_of_getElem? found)
  · intro i x behind found
    rw [← Array.getElem?_toList, list, List.getElem?_append_right behind] at found
    exact back x (List.mem_of_getElem? found)

end Bisection

variable {κ ν : Type} [Ord κ] {k : κ} {items : Array (κ × ν)}

section Bounds
variable [Std.TransOrd κ]

/-- In a run in order the lower bound counts the pairs with smaller keys. -/
theorem lowerBound_eq (inOrder : Listing.InOrder items.toList) (k : κ) :
    lowerBound k items = Listing.countBelow k items.toList := by
  obtain ⟨before, middle, after, list, sections⟩ := inOrder.exists_sections k
  rw [list, sections.countBelow_eq]
  apply bisect_append list
  · intro pair inside
    have less : compare pair.1 k = .lt := sections.parts.less pair inside
    rw [less]
    rfl
  · intro pair member
    rcases List.mem_append.mp member with inside | inside
    · have equal : compare pair.1 k = .eq := sections.equal pair inside
      rw [equal]
      rfl
    · have greater : compare pair.1 k = .gt := sections.parts.greater pair inside
      rw [greater]
      rfl

/-- In a run in order the upper bound counts the pairs whose keys are not greater. -/
theorem upperBound_eq (inOrder : Listing.InOrder items.toList) (k : κ) :
    upperBound k items = Listing.countUpTo k items.toList := by
  obtain ⟨before, middle, after, list, sections⟩ := inOrder.exists_sections k
  rw [list, sections.countUpTo_eq, ← List.length_append]
  rw [← List.append_assoc] at list
  apply bisect_append list
  · intro pair member
    rcases List.mem_append.mp member with inside | inside
    · have less : compare pair.1 k = .lt := sections.parts.less pair inside
      rw [less]
      rfl
    · have equal : compare pair.1 k = .eq := sections.equal pair inside
      rw [equal]
      rfl
  · intro pair inside
    have greater : compare pair.1 k = .gt := sections.parts.greater pair inside
    rw [greater]
    rfl

end Bounds

theorem toList_sortByKey (items : Array (κ × ν)) : (sortByKey items).toList = Listing.arrange items.toList := rfl

section Gathering
variable [BEq κ] [Std.LawfulBEqOrd κ] {kept read count : Nat} {last : κ × ν}

/-- The pairs at the front up to the one kept last stay. Behind them come those of the
unread pairs that follow another key, no matter which pairs were left between. -/
theorem take_gather (less : kept < read) (within : read + count = items.size) (isLast : items[kept]? = some last) :
    (gather items kept read count).1.toList.take ((gather items kept read count).2 + 1) =
      items.toList.take kept ++ (items.toList.drop read).destutter' Listing.Differs last := by
  induction count generalizing items kept read last with
  | zero =>
    have unread : items.toList.drop read = [] := List.drop_eq_nil_of_le (by rw [Array.length_toList]; omega)
    rw [unread, gather, List.take_add_one, Array.getElem?_toList, isLast]
    rfl
  | succ count ih =>
    have inside : kept + 1 < items.size := by omega
    have inside' : read < items.size := by omega
    have isNext : items[read]? = some items[read] := Array.getElem?_eq_getElem inside'
    have unread : items.toList.drop read = items[read] :: items.toList.drop (read + 1) :=
      List.drop_eq_getElem_cons (by simpa using inside')
    simp only [gather, isLast, isNext]
    by_cases same : compare items[read].1 last.1 = .eq
    · have repeats : ¬ Listing.Differs last items[read] := fun differs => differs same
      have equal : (items[read].1 != last.1) = false := by
        rw [bne, Std.LawfulBEqCmp.compare_eq_iff_beq.mp same, Bool.not_true]
      rw [if_neg (Bool.eq_false_iff.mp equal), unread, List.destutter'_cons_neg _ repeats]
      exact ih (by omega) (by omega) isLast
    · have differs : Listing.Differs last items[read] := same
      have unequal : (items[read].1 != last.1) = true := by
        rw [bne, Bool.eq_false_iff.mpr fun equal => same (Std.LawfulBEqCmp.compare_eq_iff_beq.mpr equal), Bool.not_false]
      have isLast' : (items.swapIfInBounds (kept + 1) read)[kept + 1]? = some items[read] := by
        rw [getElem?_swapIfInBounds inside inside', isNext, if_pos rfl]
        split
        · rename_i atOnce
          rw [← atOnce, isNext]
        · rfl
      have within' : read + 1 + count = (items.swapIfInBounds (kept + 1) read).size := by
        rw [Array.size_swapIfInBounds]
        omega
      have keeps := ih (Nat.succ_lt_succ less) within' isLast'
      rw [take_swapIfInBounds inside inside' (Nat.le_refl _) (by omega),
        drop_swapIfInBounds inside inside' (by omega) (Nat.lt_succ_self _)] at keeps
      rw [if_pos unequal, unread, List.destutter'_cons_pos _ differs, keeps, List.take_add_one, Array.getElem?_toList,
        isLast, Option.toList_some, List.append_assoc, List.singleton_append]

/-- Of a run of pairs those are kept that follow another key. -/
theorem toList_dropRepeats (items : Array (κ × ν)) :
    (dropRepeats items).toList = items.toList.destutter Listing.Differs := by
  unfold dropRepeats
  split
  · rename_i few
    rcases list : items.toList with _ | ⟨pair, _ | ⟨other, rest⟩⟩
    · rfl
    · rfl
    · rw [← Array.length_toList, list, List.length_cons, List.length_cons] at few
      omega
  · rename_i many
    have first : items[0]? = some items[0] := Array.getElem?_eq_getElem (by omega)
    have within : 1 + (items.size - 1) = items.size := by omega
    have list : items.toList.drop 0 = items[0] :: items.toList.drop 1 := List.drop_eq_getElem_cons (by simp; omega)
    rw [List.drop_zero] at list
    rw [Array.toList_extract, List.extract_eq_take_drop, List.drop_zero, Nat.sub_zero,
      take_gather Nat.zero_lt_one within first, List.take_zero, List.nil_append]
    conv_rhs => rw [list]
    rfl

/-- Sorting a run and dropping repeats files its pairs in turn. -/
theorem toList_dropRepeats_sortByKey [Std.TransOrd κ] (items : Array (κ × ν)) :
    (dropRepeats (sortByKey items)).toList = Listing.filed items.toList := by
  rw [toList_dropRepeats, toList_sortByKey, Listing.destutter_arrange]

end Gathering

end Flat

end Containers
