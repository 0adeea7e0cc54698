import Containers.Element.Basic
import Mathlib.Data.List.Induction

/-! Lists of values in the order of their keys, the reference for everything
that files values under keys. Two keys may compare as equal and still be told
apart, so the list says which of them is kept. -/
namespace Containers

instance : Std.TransOrd Caseless :=
  inferInstanceAs (Std.TransCmp (compareOn Caseless.folded))

instance : Std.LawfulBEqOrd Caseless where
  compare_eq_iff_beq := (inferInstance : Std.LawfulBEqOrd String).compare_eq_iff_beq

/-- Every key comes before the keys of the values behind it. -/
def Sorted [Keyed α κ] [Ord κ] (values : List α) : Prop :=
  values.Pairwise fun x y => compare (Keyed.key x) (Keyed.key y) = .lt

namespace Listing

/-- Puts a value where its key belongs, unless that key is filed already. -/
def file [Keyed α κ] [Ord κ] (value : α) : List α → List α
  | [] => [value]
  | x :: rest =>
    match compare (Keyed.key x) (Keyed.key value) with
    | .lt => x :: file value rest
    | .eq => x :: rest
    | .gt => value :: x :: rest

/-- The value filed under a key. -/
def find? [Keyed α κ] [Ord κ] (k : κ) (values : List α) : Option α :=
  values.find? fun x => compare (Keyed.key x) k = .eq

/-- What is left without the value filed under a key. -/
def drop [Keyed α κ] [Ord κ] (k : κ) (values : List α) : List α :=
  values.filter fun x => compare (Keyed.key x) k ≠ .eq

/-- The entries with another value filed under a key, which keeps its spelling. -/
def overwrite [Ord κ] (k : κ) (value : ν) (entries : List (κ × ν)) : List (κ × ν) :=
  entries.map fun entry => if compare (Keyed.key entry) k = .eq then (entry.1, value) else entry

/-- The entries with a value filed under a key, whether it was present or not. -/
def store [Ord κ] (k : κ) (value : ν) (entries : List (κ × ν)) : List (κ × ν) :=
  if (find? k entries).isSome then overwrite k value entries else file (k, value) entries

/-- A list parts at a key when the keys in front come before it and the keys
behind come after it. -/
structure Parts [Keyed α κ] [Ord κ] (k : κ) (before after : List α) : Prop where
  less : ∀ x ∈ before, compare (Keyed.key x) k = .lt
  greater : ∀ x ∈ after, compare (Keyed.key x) k = .gt

variable [Keyed α κ] [Ord κ] {k : κ} {value x : α} {before after values : List α}

section Reference

theorem file_append (less : ∀ x ∈ before, compare (Keyed.key x) (Keyed.key value) = .lt) :
    file value (before ++ after) = before ++ file value after := by
  induction before with
  | nil => rfl
  | cons x rest ih =>
    have first := less x (by simp)
    simp only [List.cons_append, file, first]
    rw [ih fun y member => less y (by simp [member])]

theorem file_vacant (parts : Parts (Keyed.key value) before after) :
    file value (before ++ after) = before ++ value :: after := by
  rw [file_append parts.less]
  cases after with
  | nil => rfl
  | cons x rest => simp only [file, parts.greater x (by simp)]

theorem file_found (parts : Parts (Keyed.key value) before after)
    (same : compare (Keyed.key x) (Keyed.key value) = .eq) :
    file value (before ++ x :: after) = before ++ x :: after := by
  rw [file_append parts.less]
  simp only [file, same]

theorem find?_vacant (parts : Parts k before after) : find? k (before ++ after) = none := by
  refine List.find?_eq_none.mpr fun x member => ?_
  rcases List.mem_append.mp member with inside | inside
  · simp [parts.less x inside]
  · simp [parts.greater x inside]

theorem find?_found (parts : Parts k before after) (same : compare (Keyed.key x) k = .eq) :
    find? k (before ++ x :: after) = some x := by
  have notBefore : before.find? (fun x => compare (Keyed.key x) k = .eq) = none :=
    List.find?_eq_none.mpr fun y inside => by simp [parts.less y inside]
  simp [find?, List.find?_append, notBefore, same]

theorem drop_absent (absent : find? k values = none) : drop k values = values := by
  refine List.filter_eq_self.mpr fun x member => ?_
  simpa using List.find?_eq_none.mp absent x member

theorem drop_found (parts : Parts k before after) (same : compare (Keyed.key x) k = .eq) :
    drop k (before ++ x :: after) = before ++ after := by
  rw [← drop_absent (find?_vacant parts)]
  simp [drop, same]

theorem overwrite_absent {entries : List (κ × ν)} (absent : find? k entries = none) (v : ν) :
    overwrite k v entries = entries := by
  refine (List.map_congr_left fun entry member => if_neg ?_).trans (List.map_id _)
  simpa using List.find?_eq_none.mp absent entry member

theorem overwrite_found {before after : List (κ × ν)} {entry : κ × ν} (parts : Parts k before after)
    (same : compare (Keyed.key entry) k = .eq) (v : ν) :
    overwrite k v (before ++ entry :: after) = before ++ (entry.1, v) :: after := by
  have apart := overwrite_absent (find?_vacant parts) v
  simp only [overwrite, List.map_append, List.map_cons, same, ↓reduceIte] at apart ⊢
  obtain ⟨front, back⟩ := List.append_inj apart (List.length_map ..)
  rw [front, back]

end Reference

section Order

/-- What holds of all pairs of a list, said of one value and of the others apart. -/
theorem pairwise_middle {related : α → α → Prop} : (before ++ x :: after).Pairwise related ↔
    (before ++ after).Pairwise related ∧ (∀ y ∈ before, related y x) ∧ ∀ y ∈ after, related x y := by
  simp only [List.pairwise_append, List.pairwise_cons, List.mem_cons]
  constructor
  · rintro ⟨front, ⟨above, back⟩, across⟩
    exact ⟨⟨front, back, fun y inFront z inBack => across y inFront z (.inr inBack)⟩,
      fun y inFront => across y inFront x (.inl rfl), above⟩
  · rintro ⟨⟨front, back, across⟩, below, above⟩
    refine ⟨front, ⟨above, back⟩, ?_⟩
    rintro y inFront z (rfl | inBack)
    · exact below y inFront
    · exact across y inFront z inBack

theorem sorted_middle : Sorted (before ++ x :: after) ↔
    Sorted (before ++ after) ∧
      (∀ y ∈ before, compare (Keyed.key y) (Keyed.key x) = .lt) ∧
      ∀ y ∈ after, compare (Keyed.key x) (Keyed.key y) = .lt :=
  pairwise_middle

variable [Std.TransOrd κ]

/-- A sorted list parts at a key that is equal to one of its own. -/
theorem parts_of_sorted (sorted : Sorted (before ++ x :: after))
    (same : compare (Keyed.key x) k = .eq) : Parts k before after := by
  obtain ⟨-, less, greater⟩ := sorted_middle.mp sorted
  refine ⟨fun y inside => Std.TransCmp.lt_of_lt_of_eq (less y inside) same, fun y inside => ?_⟩
  exact Std.TransCmp.gt_of_gt_of_eq (Std.OrientedCmp.gt_of_lt (greater y inside)) same

/-- A key is either that of a value in a sorted list, or the list parts at it. -/
theorem found_or_parts (sorted : Sorted values) (k : κ) :
    (∃ before x after, values = before ++ x :: after ∧ compare (Keyed.key x) k = .eq) ∨
      ∃ before after, values = before ++ after ∧ Parts k before after := by
  induction values with
  | nil => exact .inr ⟨[], [], rfl, nofun, nofun⟩
  | cons x rest ih =>
    obtain ⟨above, sorted'⟩ := List.pairwise_cons.mp sorted
    cases order : compare (Keyed.key x) k with
    | eq => exact .inl ⟨[], x, rest, rfl, order⟩
    | gt =>
      refine .inr ⟨[], x :: rest, rfl, nofun, fun y member => ?_⟩
      rcases List.mem_cons.mp member with rfl | member
      · exact order
      · exact Std.TransCmp.gt_trans (Std.OrientedCmp.gt_of_lt (above y member)) order
    | lt =>
      obtain ⟨before, y, after, rfl, same⟩ | ⟨before, after, rfl, parts⟩ := ih sorted'
      · exact .inl ⟨x :: before, y, after, rfl, same⟩
      · refine .inr ⟨x :: before, after, rfl, fun y member => ?_, parts.greater⟩
        rcases List.mem_cons.mp member with rfl | member
        · exact order
        · exact parts.less y member

/-- A value may be put where the list parts at its key. -/
theorem sorted_of_parts (sorted : Sorted (before ++ after))
    (parts : Parts (Keyed.key value) before after) : Sorted (before ++ value :: after) :=
  sorted_middle.mpr ⟨sorted, parts.less, fun y inside => Std.OrientedCmp.lt_of_gt (parts.greater y inside)⟩

end Order

section Lookup

/-- Overwriting keeps the spelling of every key, so a key is found where it was. -/
theorem find?_overwrite (k j : κ) (v : ν) (entries : List (κ × ν)) :
    find? k (overwrite j v entries) =
      (find? k entries).map fun entry => if compare (Keyed.key entry) j = .eq then (entry.1, v) else entry := by
  have sameKeys : (fun entry : κ × ν => decide (compare (Keyed.key entry) k = .eq)) ∘
      (fun entry => if compare (Keyed.key entry) j = .eq then (entry.1, v) else entry) =
      fun entry => decide (compare (Keyed.key entry) k = .eq) := by
    funext entry
    simp only [Function.comp_apply]
    split <;> rfl
  rw [find?, overwrite, List.find?_map, sameKeys]
  rfl

variable [Std.TransOrd κ]

/-- The same is found under equal keys. -/
theorem find?_congr {j : κ} (same : compare j k = .eq) (values : List α) : find? j values = find? k values := by
  apply congrArg (List.find? · values)
  funext x
  rw [Std.TransCmp.congr_right same]

/-- A value filed under an absent key is found under it, and nothing else changes. -/
theorem find?_file (absent : find? (Keyed.key value) values = none) (k : κ) :
    find? k (file value values) = if compare (Keyed.key value) k = .eq then some value else find? k values := by
  induction values with
  | nil =>
    simp only [file, find?, List.find?_cons, List.find?_nil]
    by_cases same : compare (Keyed.key value) k = .eq <;> simp [same]
  | cons x rest ih =>
    have apart := List.find?_eq_none.mp absent
    have differs : compare (Keyed.key x) (Keyed.key value) ≠ .eq := by simpa using apart x (by simp)
    have absent' : find? (Keyed.key value) rest = none :=
      List.find?_eq_none.mpr fun y inside => apart y (by simp [inside])
    have unmatched : compare (Keyed.key value) k = .eq → compare (Keyed.key x) k ≠ .eq := fun same equal =>
      differs (Std.TransCmp.eq_trans equal (Std.OrientedCmp.eq_symm same))
    cases order : compare (Keyed.key x) (Keyed.key value) with
    | eq => exact absurd order differs
    | lt =>
      have behind := ih absent'
      simp only [file, order]
      by_cases same : compare (Keyed.key value) k = .eq
      · rw [if_pos same] at behind ⊢
        simpa [find?, unmatched same] using behind
      · rw [if_neg same] at behind ⊢
        by_cases equal : compare (Keyed.key x) k = .eq
        · simp [find?, equal]
        · simpa [find?, equal] using behind
    | gt =>
      simp only [file, order]
      by_cases same : compare (Keyed.key value) k = .eq <;> simp [find?, same]

/-- Storing a value under a key keeps the spelling that is found there, and every
other key is found as before. -/
theorem find?_store (k j : κ) (v : ν) (entries : List (κ × ν)) :
    find? k (store j v entries) =
      if compare j k = .eq then some (((find? k entries).map Prod.fst).getD j, v) else find? k entries := by
  unfold store
  cases present : find? j entries with
  | none =>
    have unfiled : find? (Keyed.key (j, v)) entries = none := present
    have filed := find?_file unfiled k
    simp only [Option.isSome_none, Bool.false_eq_true, ↓reduceIte, filed]
    by_cases same : compare j k = .eq
    · have absent : find? k entries = none := List.find?_eq_none.mpr fun entry member => by
        have apart := List.find?_eq_none.mp present entry member
        simp only [decide_eq_true_eq] at apart ⊢
        exact fun equal => apart (Std.TransCmp.eq_trans equal (Std.OrientedCmp.eq_symm same))
      simp [Keyed.key, same, absent]
    · simp [Keyed.key, same]
  | some old =>
    simp only [Option.isSome_some, ↓reduceIte, find?_overwrite]
    have equal : compare (Keyed.key old) j = .eq := by simpa using List.find?_some present
    by_cases same : compare j k = .eq
    · have sameSearch : find? k entries = some old := by rw [← find?_congr same, present]
      simp [sameSearch, same, equal]
    · rw [if_neg same]
      cases found : find? k entries with
      | none => rfl
      | some entry =>
        have matched : compare (Keyed.key entry) k = .eq := by simpa using List.find?_some found
        have differs : compare (Keyed.key entry) j ≠ .eq := fun equal' =>
          same (Std.TransCmp.eq_trans (Std.OrientedCmp.eq_symm equal') matched)
        simp [differs]

/-- Of pairs that are stored one after another, each key keeps the first spelling and has the last value. -/
theorem find?_stored (k : κ) (pairs : List (κ × ν)) :
    find? k (pairs.foldl (fun stored pair => store pair.1 pair.2 stored) []) =
      (find? k pairs).bind fun first => (find? k pairs.reverse).map fun last => (first.1, last.2) := by
  induction pairs using List.reverseRecOn with
  | nil => rfl
  | append_singleton pairs pair ih =>
    rw [List.foldl_append, List.foldl_cons, List.foldl_nil, find?_store, ih]
    by_cases same : compare pair.1 k = .eq
    · have last : find? k (pairs ++ [pair]).reverse = some pair := by simp [find?, Keyed.key, same]
      have first : find? k (pairs ++ [pair]) = (find? k pairs).or (some pair) := by
        simp [find?, Keyed.key, same, List.find?_append]
      rw [if_pos same, last, first]
      cases found : find? k pairs with
      | none => rfl
      | some entry =>
        have present : (find? k pairs.reverse).isSome := by
          have matched : compare (Keyed.key entry) k = .eq := by simpa using List.find?_some found
          simpa [find?] using ⟨_, _, List.mem_of_find?_eq_some found, matched⟩
        obtain ⟨older, isOlder⟩ := Option.isSome_iff_exists.mp present
        rw [isOlder]
        rfl
    · rw [if_neg same]
      simp [find?, Keyed.key, same]

end Lookup

end Listing

end Containers
