import Containers.Proofs.Listing
import Mathlib.Data.List.Basic

/-! Lists in which keys may repeat, in the order of their keys. The stable arrangement of a
list keeps values with equal keys in the order they came in; there is just one, and sorting
yields it. Filing a value behind its equals, dropping a key, and taking out the value that
stands at a place of the arrangement do to it what they do to the list it was made of. -/
namespace Containers.Listing
variable {α κ : Type} [Keyed α κ] [Ord κ]

/-- No value comes behind one with a greater key. -/
def InOrder (values : List α) : Prop :=
  values.Pairwise fun x y => (compare (Keyed.key x) (Keyed.key y)).isLE

/-- The values filed under keys equal to `k`. -/
def under (k : κ) (values : List α) : List α :=
  values.filter fun x => compare (Keyed.key x) k = .eq

/-- The number of values with keys below `k`. -/
def countBelow (k : κ) (values : List α) : Nat :=
  values.countP fun x => (compare (Keyed.key x) k).isLT

/-- The number of values with keys not above `k`. -/
def countUpTo (k : κ) (values : List α) : Nat :=
  values.countP fun x => (compare (Keyed.key x) k).isLE

/-- The values in the order of their keys, and under equal keys in the order they came in. -/
def arrange (values : List α) : List α :=
  values.mergeSort fun x y => (compare (Keyed.key x) (Keyed.key y)).isLE

/-- The second list is a stable arrangement of the first one. -/
structure Arranges (source arranged : List α) : Prop where
  inOrder : InOrder arranged
  stable : ∀ k : κ, under k arranged = under k source

/-- A value together with its place in the list it comes from. -/
structure Aged (α : Type) where
  value : α
  age : Nat

instance : Keyed (Aged α) κ where
  key x := Keyed.key x.value

/-- The values of a list with their places. -/
def aged (values : List α) : List (Aged α) :=
  values.mapIdx fun age value => ⟨value, age⟩

/-- What is left of a list without the value that stands at a place of its arrangement. -/
def withdraw (position : Nat) (values : List α) : List α :=
  match (arrange (aged values))[position]? with
  | some x => values.eraseIdx x.age
  | none => values

/-- A list in order falls into three sections at a key: the keys in front come before it,
those in the middle equal it, and those behind come after it. -/
structure Sections (k : κ) (before middle after : List α) : Prop where
  parts : Parts k before after
  equal : ∀ x ∈ middle, compare (Keyed.key x) k = .eq

variable {k : κ} {x value : α} {before middle after values source arranged : List α}

section Counting

theorem Sections.countBelow_eq (sections : Sections k before middle after) :
    countBelow k (before ++ (middle ++ after)) = before.length := by
  have all : before.countP (fun x => (compare (Keyed.key x) k).isLT) = before.length :=
    List.countP_eq_length.mpr fun x member => by rw [sections.parts.less x member]; rfl
  have noneEqual : middle.countP (fun x => (compare (Keyed.key x) k).isLT) = 0 :=
    List.countP_eq_zero.mpr fun x member => by rw [sections.equal x member]; nofun
  have noneGreater : after.countP (fun x => (compare (Keyed.key x) k).isLT) = 0 :=
    List.countP_eq_zero.mpr fun x member => by rw [sections.parts.greater x member]; nofun
  rw [countBelow, List.countP_append, List.countP_append, all, noneEqual, noneGreater]
  rfl

/-- Keys not above a key are below it or equal to it. -/
theorem countUpTo_eq (k : κ) (values : List α) :
    countUpTo k values = countBelow k values + (under k values).length := by
  induction values with
  | nil => rfl
  | cons x rest ih =>
    simp only [countUpTo, countBelow, under, List.countP_cons, List.filter_cons] at ih ⊢
    cases compare (Keyed.key x) k <;> simp <;> omega

theorem Sections.under_eq (sections : Sections k before middle after) :
    under k (before ++ (middle ++ after)) = middle := by
  have noneLess : before.filter (fun x => compare (Keyed.key x) k = .eq) = [] :=
    List.filter_eq_nil_iff.mpr fun x member => by simp [sections.parts.less x member]
  have all : middle.filter (fun x => compare (Keyed.key x) k = .eq) = middle :=
    List.filter_eq_self.mpr fun x member => by simp [sections.equal x member]
  have noneGreater : after.filter (fun x => compare (Keyed.key x) k = .eq) = [] :=
    List.filter_eq_nil_iff.mpr fun x member => by simp [sections.parts.greater x member]
  rw [under, List.filter_append, List.filter_append, noneLess, all, noneGreater, List.nil_append, List.append_nil]

theorem Sections.countUpTo_eq (sections : Sections k before middle after) :
    countUpTo k (before ++ (middle ++ after)) = before.length + middle.length := by
  rw [Listing.countUpTo_eq, sections.countBelow_eq, sections.under_eq]

theorem Sections.drop_eq (sections : Sections k before middle after) :
    drop k (before ++ (middle ++ after)) = before ++ after := by
  have noMiddle : middle.filter (fun x => compare (Keyed.key x) k ≠ .eq) = [] :=
    List.filter_eq_nil_iff.mpr fun x member => by simp [sections.equal x member]
  have outer : drop k (before ++ after) = before ++ after := drop_absent (find?_vacant sections.parts)
  simp only [drop, List.filter_append, noMiddle, List.nil_append] at outer ⊢
  exact outer

/-- The middle section stands just at the places of the values with keys equal to `k`. -/
theorem Sections.covers {i : Nat} (sections : Sections k before middle after)
    (found : (before ++ (middle ++ after))[i]? = some x) :
    compare (Keyed.key x) k = .eq ↔ before.length ≤ i ∧ i < before.length + middle.length := by
  by_cases inFront : i < before.length
  · rw [List.getElem?_append_left inFront] at found
    have less := sections.parts.less x (List.mem_of_getElem? found)
    rw [less]
    constructor
    · nofun
    · omega
  · rw [List.getElem?_append_right (Nat.not_lt.mp inFront)] at found
    by_cases inMiddle : i < before.length + middle.length
    · rw [List.getElem?_append_left (by omega)] at found
      have equal := sections.equal x (List.mem_of_getElem? found)
      exact iff_of_true equal ⟨Nat.not_lt.mp inFront, inMiddle⟩
    · rw [List.getElem?_append_right (by omega)] at found
      have greater := sections.parts.greater x (List.mem_of_getElem? found)
      rw [greater]
      constructor
      · nofun
      · omega

end Counting

section Order

theorem inOrder_middle : InOrder (before ++ x :: after) ↔
    InOrder (before ++ after) ∧
      (∀ y ∈ before, (compare (Keyed.key y) (Keyed.key x)).isLE) ∧
      ∀ y ∈ after, (compare (Keyed.key x) (Keyed.key y)).isLE :=
  pairwise_middle

theorem inOrder_of_sorted (sorted : Sorted values) : InOrder values :=
  sorted.imp fun less => Ordering.isLE_of_eq_lt less

variable [Std.TransOrd κ]

/-- A list in order falls into sections at every key. -/
theorem InOrder.exists_sections (inOrder : InOrder values) (k : κ) :
    ∃ before middle after, values = before ++ (middle ++ after) ∧ Sections k before middle after := by
  induction values with
  | nil => exact ⟨[], [], [], rfl, ⟨nofun, nofun⟩, nofun⟩
  | cons x rest ih =>
    obtain ⟨above, inOrderRest⟩ := List.pairwise_cons.mp inOrder
    cases order : compare (Keyed.key x) k with
    | lt =>
      obtain ⟨before, middle, after, rfl, ⟨less, greater⟩, equal⟩ := ih inOrderRest
      have less' : ∀ y ∈ x :: before, compare (Keyed.key y) k = .lt := List.forall_mem_cons.mpr ⟨order, less⟩
      exact ⟨x :: before, middle, after, rfl, ⟨less', greater⟩, equal⟩
    | eq =>
      obtain ⟨before, middle, after, rfl, ⟨less, greater⟩, equal⟩ := ih inOrderRest
      -- Nothing less than `k` can come behind a key that equals it.
      obtain rfl : before = [] := by
        apply List.eq_nil_iff_forall_not_mem.mpr
        intro y member
        have smaller := Std.TransCmp.lt_of_isLE_of_lt (above y (by simp [member])) (less y member)
        rw [order] at smaller
        cases smaller
      have equal' : ∀ y ∈ x :: middle, compare (Keyed.key y) k = .eq := List.forall_mem_cons.mpr ⟨order, equal⟩
      exact ⟨[], x :: middle, after, rfl, ⟨nofun, greater⟩, equal'⟩
    | gt =>
      have greater : ∀ y ∈ x :: rest, compare (Keyed.key y) k = .gt := by
        intro y member
        rcases List.mem_cons.mp member with rfl | member
        · exact order
        · have below := Std.TransCmp.lt_of_lt_of_isLE (Std.OrientedCmp.lt_of_gt order) (above y member)
          exact Std.OrientedCmp.gt_of_lt below
      exact ⟨[], [], x :: rest, rfl, ⟨nofun, greater⟩, nofun⟩

/-- Lists in order that file the same values under every key are the same. -/
theorem InOrder.ext {first second : List α} (inOrder : InOrder first) (inOrder' : InOrder second)
    (same : ∀ k : κ, under k first = under k second) : first = second := by
  have member_of : ∀ {values others : List α}, (∀ k : κ, under k values = under k others) →
      ∀ x ∈ values, x ∈ others := by
    intro values others same x member
    have filed : x ∈ under (Keyed.key x) values := List.mem_filter.mpr ⟨member, by simp⟩
    rw [same] at filed
    exact (List.mem_filter.mp filed).1
  induction first generalizing second with
  | nil =>
    cases second with
    | nil => rfl
    | cons y others => exact absurd (member_of (fun k => (same k).symm) y List.mem_cons_self) List.not_mem_nil
  | cons x rest ih =>
    cases second with
    | nil => exact absurd (member_of same x List.mem_cons_self) List.not_mem_nil
    | cons y others =>
      obtain ⟨above, inOrderRest⟩ := List.pairwise_cons.mp inOrder
      obtain ⟨above', inOrderOthers⟩ := List.pairwise_cons.mp inOrder'
      have first_le : ∀ {x y : α} {rest : List α}, y ∈ x :: rest →
          (∀ y ∈ rest, (compare (Keyed.key x) (Keyed.key y)).isLE) → (compare (Keyed.key x) (Keyed.key y)).isLE := by
        intro x y rest member above
        rcases List.mem_cons.mp member with rfl | member
        · exact Std.ReflCmp.isLE_rfl
        · exact above y member
      have equal : compare (Keyed.key y) (Keyed.key x) = .eq := by
        apply Std.OrientedCmp.isLE_antisymm
        · exact first_le (member_of same x List.mem_cons_self) above'
        · exact first_le (member_of (fun k => (same k).symm) y List.mem_cons_self) above
      have heads := same (Keyed.key x)
      simp only [under, List.filter_cons, Std.ReflCmp.compare_self, equal, decide_true, ↓reduceIte,
        List.cons.injEq] at heads
      obtain ⟨rfl, -⟩ := heads
      congr 1
      apply ih inOrderRest inOrderOthers
      intro k
      have tails := same k
      simp only [under, List.filter_cons] at tails
      split at tails
      · exact (List.cons.inj tails).2
      · exact tails

end Order

section Arrangement

@[simp] theorem arrange_nil : arrange ([] : List α) = [] :=
  List.mergeSort_nil

@[simp] theorem length_arrange (values : List α) : (arrange values).length = values.length :=
  List.length_mergeSort values

@[simp] theorem countBelow_arrange (k : κ) (values : List α) :
    countBelow k (arrange values) = countBelow k values :=
  (List.mergeSort_perm values _).countP_eq _

@[simp] theorem countUpTo_arrange (k : κ) (values : List α) :
    countUpTo k (arrange values) = countUpTo k values :=
  (List.mergeSort_perm values _).countP_eq _

theorem map_value_aged (values : List α) : (aged values).map Aged.value = values := by
  apply List.ext_getElem?
  intro i
  rw [aged, List.getElem?_map, List.getElem?_mapIdx, Option.map_map]
  exact Option.map_id'

theorem map_value_arrange (values : List (Aged α)) :
    (arrange values).map Aged.value = arrange (values.map Aged.value) :=
  List.map_mergeSort fun _ _ _ _ => rfl

variable [Std.TransOrd κ]

theorem arranges_arrange (values : List α) : Arranges values (arrange values) := by
  have trans : ∀ a b c : α, (compare (Keyed.key a) (Keyed.key b)).isLE → (compare (Keyed.key b) (Keyed.key c)).isLE →
      (compare (Keyed.key a) (Keyed.key c)).isLE := fun _ _ _ => Std.TransCmp.isLE_trans
  have total : ∀ a b : α, (compare (Keyed.key a) (Keyed.key b)).isLE || (compare (Keyed.key b) (Keyed.key a)).isLE := by
    intro a b
    have swapped : compare (Keyed.key b) (Keyed.key a) = (compare (Keyed.key a) (Keyed.key b)).swap :=
      Std.OrientedCmp.eq_swap
    rw [swapped]
    cases compare (Keyed.key a) (Keyed.key b) <;> rfl
  constructor
  · exact List.pairwise_mergeSort trans total values
  · intro k
    -- Values with equal keys are in order as they came in, and sorting keeps every such sublist.
    have tied : (under k values).Pairwise fun x y => (compare (Keyed.key x) (Keyed.key y)).isLE := by
      apply List.pairwise_of_forall_mem_list
      intro x inside y inside'
      have left : compare (Keyed.key x) k = .eq := by simpa using (List.mem_filter.mp inside).2
      have right : compare (Keyed.key y) k = .eq := by simpa using (List.mem_filter.mp inside').2
      exact Ordering.isLE_of_eq_eq (Std.TransCmp.eq_trans left (Std.OrientedCmp.eq_symm right))
    have kept := (List.sublist_mergeSort trans total tied List.filter_sublist).filter
      fun x => compare (Keyed.key x) k = .eq
    have again : (under k values).filter (fun x => compare (Keyed.key x) k = .eq) = under k values := by
      rw [under, List.filter_filter]
      simp only [Bool.and_self]
    rw [again] at kept
    have length : (under k values).length = (under k (arrange values)).length :=
      ((List.mergeSort_perm values _).filter _).length_eq.symm
    exact (kept.eq_of_length length).symm

@[simp] theorem under_arrange (k : κ) (values : List α) : under k (arrange values) = under k values :=
  (arranges_arrange values).stable k

/-- Sorting yields the one stable arrangement that there is. -/
theorem arranges_iff : Arranges source arranged ↔ arranged = arrange source := by
  constructor
  · intro arranges
    apply arranges.inOrder.ext (arranges_arrange source).inOrder
    intro k
    rw [arranges.stable, under_arrange]
  · rintro rfl
    exact arranges_arrange source

/-- The arrangement falls into sections at every key, and the middle one is what was filed under it. -/
theorem arrange_sections (k : κ) (values : List α) :
    ∃ before after, arrange values = before ++ (under k values ++ after) ∧
      Sections k before (under k values) after ∧ countBelow k values = before.length ∧
      countUpTo k values = before.length + (under k values).length := by
  obtain ⟨before, middle, after, list, sections⟩ := (arranges_arrange values).inOrder.exists_sections k
  have isMiddle : under k values = middle := by rw [← under_arrange, list, sections.under_eq]
  have below : countBelow k values = before.length := by rw [← countBelow_arrange, list, sections.countBelow_eq]
  subst isMiddle
  exact ⟨before, after, list, sections, below, by rw [countUpTo_eq, below]⟩

/-- A value that came in last stands behind all values with keys not above its own. -/
theorem arrange_concat (values : List α) (x : α) :
    arrange (values ++ [x]) = (arrange values).take (countUpTo (Keyed.key x) values) ++
      x :: (arrange values).drop (countUpTo (Keyed.key x) values) := by
  obtain ⟨before, after, list, sections, -, place⟩ := arrange_sections (Keyed.key x) values
  have inOrder := (arranges_arrange values).inOrder
  have stable := (arranges_arrange values).stable
  rw [list, ← List.append_assoc] at inOrder stable
  rw [list, place, ← List.append_assoc, ← List.length_append, List.take_left, List.drop_left]
  symm
  apply arranges_iff.mp
  constructor
  · apply inOrder_middle.mpr ⟨inOrder, ?_, ?_⟩
    · intro y member
      rcases List.mem_append.mp member with inside | inside
      · exact Ordering.isLE_of_eq_lt (sections.parts.less y inside)
      · exact Ordering.isLE_of_eq_eq (sections.equal y inside)
    · intro y member
      exact Ordering.isLE_of_eq_lt (Std.OrientedCmp.lt_of_gt (sections.parts.greater y member))
  · intro k
    have source : under k (values ++ [x]) = under k values ++ under k [x] := List.filter_append _ _
    rw [source, ← stable k]
    by_cases same : compare (Keyed.key x) k = .eq
    · have none : under k after = [] := List.filter_eq_nil_iff.mpr fun y member => by
        simp [Std.TransCmp.gt_of_gt_of_eq (sections.parts.greater y member) same]
      simp only [under, List.filter_append, List.filter_cons, List.filter_nil, same] at none ⊢
      simp [none]
    · simp [under, List.filter_append, same]

theorem getElem?_arrange_concat (values : List α) (x : α) :
    (arrange (values ++ [x]))[countUpTo (Keyed.key x) values]? = some x := by
  have within : countUpTo (Keyed.key x) values ≤ (arrange values).length := by
    rw [length_arrange]
    exact List.countP_le_length
  have front : ((arrange values).take (countUpTo (Keyed.key x) values)).length = countUpTo (Keyed.key x) values := by
    rw [List.length_take, Nat.min_eq_left within]
  rw [arrange_concat, List.getElem?_append_right (Nat.le_of_eq front), front, Nat.sub_self]
  rfl

/-- Leaving values out keeps the arrangement of the others. -/
theorem arrange_filter (keep : α → Bool) (values : List α) :
    arrange (values.filter keep) = (arrange values).filter keep := by
  symm
  apply arranges_iff.mp
  constructor
  · exact (arranges_arrange values).inOrder.sublist List.filter_sublist
  · intro k
    have same := congrArg (List.filter keep) (under_arrange k values)
    rwa [under, under, List.filter_comm, List.filter_comm (fun x => keep x) _ values] at same

theorem arrange_drop (k : κ) (values : List α) : arrange (drop k values) = drop k (arrange values) :=
  arrange_filter _ values

end Arrangement

section Withdrawal

theorem map_age_aged (values : List α) : (aged values).map Aged.age = List.range values.length := by
  apply List.ext_getElem?
  intro i
  rw [aged, List.getElem?_map, List.getElem?_mapIdx, Option.map_map]
  by_cases inside : i < values.length
  · rw [List.getElem?_range inside, List.getElem?_eq_getElem inside]
    rfl
  · rw [List.getElem?_eq_none (Nat.not_lt.mp inside), List.getElem?_eq_none (by simpa using inside)]
    rfl

theorem getElem?_aged (values : List α) (i : Nat) : (aged values)[i]? = values[i]?.map (⟨·, i⟩) :=
  List.getElem?_mapIdx

/-- Where no two values are of the same age, the age tells which one is taken out. -/
theorem eraseIdx_eq_filter {ranked : List (Aged α)} {i : Nat} {x : Aged α}
    (distinct : (ranked.map Aged.age).Nodup) (found : ranked[i]? = some x) :
    ranked.eraseIdx i = ranked.filter fun y => y.age ≠ x.age := by
  obtain ⟨inside, isX⟩ := List.getElem?_eq_some_iff.mp found
  have parted : ranked = ranked.take i ++ x :: ranked.drop (i + 1) := by
    rw [← isX, ← List.drop_eq_getElem_cons, List.take_append_drop]
  have apart := List.pairwise_map.mp distinct
  rw [parted] at apart
  obtain ⟨-, differs, differs'⟩ := pairwise_middle.mp apart
  have front : (ranked.take i).filter (fun y => y.age ≠ x.age) = ranked.take i :=
    List.filter_eq_self.mpr fun y member => by simpa using differs y member
  have back : (ranked.drop (i + 1)).filter (fun y => y.age ≠ x.age) = ranked.drop (i + 1) :=
    List.filter_eq_self.mpr fun y member => by simpa using (differs' y member).symm
  conv_rhs => rw [parted]
  rw [List.filter_append, List.filter_cons_of_neg (by simp), front, back, List.eraseIdx_eq_take_drop_succ]

theorem map_eraseIdx {β : Type} (f : α → β) (values : List α) (i : Nat) :
    (values.map f).eraseIdx i = (values.eraseIdx i).map f := by
  rw [List.eraseIdx_eq_take_drop_succ, List.eraseIdx_eq_take_drop_succ, List.map_append, List.map_take, List.map_drop]

variable [Std.TransOrd κ]

/-- Without the value at a place of the arrangement, the others are arranged as before. -/
theorem arrange_withdraw (position : Nat) (values : List α) :
    arrange (withdraw position values) = (arrange values).eraseIdx position := by
  have ranks : (arrange (aged values)).map Aged.value = arrange values := by rw [map_value_arrange, map_value_aged]
  unfold withdraw
  split
  · rename_i x found
    have perm : (arrange (aged values)).Perm (aged values) := List.mergeSort_perm _ _
    have distinct : ((aged values).map Aged.age).Nodup := map_age_aged values ▸ List.nodup_range
    have distinct' : ((arrange (aged values)).map Aged.age).Nodup := (perm.map _).nodup_iff.mpr distinct
    have own : (aged values)[x.age]? = some x := by
      obtain ⟨i, isX⟩ := List.mem_iff_getElem?.mp (perm.mem_iff.mp (List.mem_of_getElem? found))
      rw [getElem?_aged] at isX ⊢
      obtain ⟨value, stands, rfl⟩ := Option.map_eq_some_iff.mp isX
      rw [stands]
      rfl
    calc arrange (values.eraseIdx x.age)
      _ = arrange (((aged values).eraseIdx x.age).map Aged.value) := by rw [← map_eraseIdx, map_value_aged]
      _ = (arrange ((aged values).eraseIdx x.age)).map Aged.value := (map_value_arrange _).symm
      _ = ((arrange (aged values)).eraseIdx position).map Aged.value := by
        rw [eraseIdx_eq_filter distinct own, eraseIdx_eq_filter distinct' found, arrange_filter]
      _ = (arrange values).eraseIdx position := by rw [← map_eraseIdx, ranks]
  · rename_i missing
    have behind := List.getElem?_eq_none_iff.mp missing
    rw [List.eraseIdx_of_length_le]
    rwa [← ranks, List.length_map]

end Withdrawal

section Uniqueness
variable [Std.TransOrd κ]

/-- Where no key repeats, nothing is filed under a key but what is found there. -/
theorem under_of_sorted (sorted : Sorted values) (k : κ) : under k values = (find? k values).toList := by
  obtain ⟨before, x, after, rfl, same⟩ | ⟨before, after, rfl, parts⟩ := found_or_parts sorted k
  · have parts := parts_of_sorted sorted same
    have sections : Sections k before [x] after := ⟨parts, by simpa using same⟩
    rw [find?_found parts same]
    exact sections.under_eq
  · have sections : Sections k before [] after := ⟨parts, nofun⟩
    rw [find?_vacant parts]
    exact sections.under_eq

theorem countUpTo_of_sorted (sorted : Sorted values) (k : κ) :
    countUpTo k values = countBelow k values + if (find? k values).isSome then 1 else 0 := by
  rw [countUpTo_eq, under_of_sorted sorted]
  cases find? k values <;> rfl

/-- The value that is found has just the values with smaller keys in front of it. -/
theorem parts_of_found (sorted : Sorted values) (found : find? k values = some x) :
    ∃ before after, values = before ++ x :: after ∧ Parts k before after ∧
      compare (Keyed.key x) k = .eq ∧ countBelow k values = before.length := by
  obtain ⟨before, y, after, rfl, same⟩ | ⟨before, after, rfl, parts⟩ := found_or_parts sorted k
  · have parts := parts_of_sorted sorted same
    have sections : Sections k before [y] after := ⟨parts, by simpa using same⟩
    rw [find?_found parts same] at found
    cases found
    exact ⟨before, after, rfl, parts, same, sections.countBelow_eq⟩
  · rw [find?_vacant parts] at found
    cases found

theorem parts_of_absent (sorted : Sorted values) (absent : find? k values = none) :
    ∃ before after, values = before ++ after ∧ Parts k before after ∧ countBelow k values = before.length := by
  obtain ⟨before, y, after, rfl, same⟩ | ⟨before, after, rfl, parts⟩ := found_or_parts sorted k
  · rw [find?_found (parts_of_sorted sorted same) same] at absent
    cases absent
  · have sections : Sections k before [] after := ⟨parts, nofun⟩
    exact ⟨before, after, rfl, parts, sections.countBelow_eq⟩

theorem getElem?_countBelow (sorted : Sorted values) (found : find? k values = some x) :
    values[countBelow k values]? = some x := by
  obtain ⟨before, after, list, -, -, place⟩ := parts_of_found sorted found
  rw [place, list, List.getElem?_append_right (Nat.le_refl _), Nat.sub_self]
  rfl

theorem eraseIdx_countBelow (sorted : Sorted values) (found : find? k values = some x) :
    values.eraseIdx (countBelow k values) = drop k values := by
  obtain ⟨before, after, list, parts, same, place⟩ := parts_of_found sorted found
  rw [place, list, drop_found parts same, List.eraseIdx_append_of_length_le (Nat.le_refl _), Nat.sub_self]
  rfl

/-- A value whose key is filed already is left out. -/
theorem file_present (value : α) (sorted : Sorted values) (found : find? (Keyed.key value) values = some x) :
    file value values = values := by
  obtain ⟨before, after, rfl, parts, same, -⟩ := parts_of_found sorted found
  exact file_found parts same

/-- A value whose key is not filed yet goes behind the values with smaller keys. -/
theorem file_absent (value : α) (sorted : Sorted values) (absent : find? (Keyed.key value) values = none) :
    values.take (countBelow (Keyed.key value) values) ++ value :: values.drop (countBelow (Keyed.key value) values) =
      file value values := by
  obtain ⟨before, after, list, parts, place⟩ := parts_of_absent sorted absent
  rw [place, list, file_vacant parts, List.take_left, List.drop_left]

theorem modify_countBelow {entries : List (κ × ν)} {entry : κ × ν} (sorted : Sorted entries)
    (found : find? k entries = some entry) (v : ν) :
    entries.modify (countBelow k entries) (fun entry => (entry.1, v)) = overwrite k v entries := by
  obtain ⟨before, after, list, parts, same, place⟩ := parts_of_found sorted found
  rw [place, list, overwrite_found parts same, List.modify_eq_take_cons_drop (by simp)]
  simp

/-- Where no key repeats, a list is determined by what is found in it. -/
theorem Sorted.ext {first second : List α} (sorted : Sorted first) (sorted' : Sorted second)
    (same : ∀ k : κ, find? k first = find? k second) : first = second := by
  apply (inOrder_of_sorted sorted).ext (inOrder_of_sorted sorted')
  intro k
  rw [under_of_sorted sorted, under_of_sorted sorted', same]

end Uniqueness

end Containers.Listing
