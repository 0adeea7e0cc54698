import Containers.Proofs.Copying
import Containers.Proofs.StorageLedger
import Mathlib.Data.List.Basic

/-! Consuming a vector from both ends. Whatever order the calls come in, what was taken
from the front, what is left, and what was taken from the back in reverse make up the
elements that there were; nothing is taken twice and nothing is lost. The buffer stays
with the drain all the while, and dropping the drain frees it once. -/
namespace Containers.Drain
variable {α : Type} {drain : Drain α} {items : List α}

/-- The elements that came from one end, the one that was taken first in front. -/
def takenFrom (side : Side) (sides : List Side) (taken : List (Option α × Nat)) : List α :=
  (sides.zip taken).filterMap fun (asked, x, _) => if asked = side then x else none

theorem takenFrom_cons (side asked : Side) (sides : List Side) (x : Option α) (left : Nat)
    (taken : List (Option α × Nat)) :
    takenFrom side (asked :: sides) ((x, left) :: taken) =
      (if asked = side then x.toList else []) ++ takenFrom side sides taken := by
  by_cases same : asked = side
  · cases x <;> simp [takenFrom, same]
  · simp [takenFrom, same]

theorem head?_append_tail (items : List α) : items.head?.toList ++ items.tail = items := by
  cases items <;> rfl

theorem dropLast_append_getLast? (items : List α) : items.dropLast ++ items.getLast?.toList = items := by
  cases last : items.getLast? with
  | none =>
    rw [List.getLast?_eq_none_iff.mp last]
    rfl
  | some x => exact List.dropLast_append_getLast? x last

/-- The elements taken from both ends and those between them are the elements that there were. -/
theorem takeAll_conserves (sides : List Side) (rests : drain.Rests items) :
    takenFrom .left sides (drain.takeAll sides).1 ++ (drain.takeAll sides).2.rest.toList ++
      (takenFrom .right sides (drain.takeAll sides).1).reverse = items := by
  induction sides generalizing drain items with
  | nil =>
    change [] ++ drain.rest.toList ++ [] = items
    rw [List.nil_append, List.append_nil, rests.rest_eq]
  | cons side sides ih =>
    simp only [takeAll, takenFrom_cons]
    cases side with
    | left =>
      obtain ⟨first, rests', -⟩ := next_rests rests
      have later := ih rests'
      simp only [takeFrom, ↓reduceIte, reduceCtorEq, List.nil_append, List.append_assoc] at later ⊢
      rw [later, first, head?_append_tail]
    | right =>
      obtain ⟨last, rests', -⟩ := nextBack_rests rests
      have later := ih rests'
      have single : ∀ x : Option α, x.toList.reverse = x.toList := by rintro (_ | _) <;> rfl
      simp only [takeFrom, ↓reduceIte, reduceCtorEq, List.nil_append, List.reverse_append, single]
      rw [← List.append_assoc, later, last, dropLast_append_getLast?]

theorem rests_nil_iff (rests : drain.Rests items) : drain.rest = #[] ↔ items = [] := by
  rw [← rests.rest_eq, Array.toList_eq_nil_iff]

/-- Either end yields nothing only where nothing is left. -/
theorem takeFrom_none_iff (rests : drain.Rests items) (side : Side) :
    (drain.takeFrom side).1 = none ↔ drain.rest = #[] := by
  rw [rests_nil_iff rests]
  cases side with
  | left =>
    change drain.next.1 = none ↔ _
    rw [(next_rests rests).1, List.head?_eq_none_iff]
  | right =>
    change drain.nextBack.1 = none ↔ _
    rw [(nextBack_rests rests).1, List.getLast?_eq_none_iff]

/-- Where nothing is left, no call changes that. -/
theorem takeAll_nil (rests : drain.Rests []) (sides : List Side) :
    drain.takeAll sides = (sides.map fun _ => (none, 0), drain) := by
  have none : drain.size = 0 := rests.size_eq
  have met : drain.front = drain.back := by
    have ordered := rests.ordered
    rw [size] at none
    omega
  have stays : ∀ side, drain.takeFrom side = (.none, drain) := by
    rintro (_ | _)
    · exact if_pos met
    · exact if_pos met
  induction sides with
  | nil => rfl
  | cons side sides ih => simp only [takeAll, stays, ih, none, List.map_cons]

end Containers.Drain

namespace Containers.Vector
variable {α : Type} [Stored α]

/-- After any calls on either end, what came from the front, what is left, and what came from
the back in reverse are the elements of the vector, and the drain reports as many as are left.
A call answers nothing exactly if nothing is left, and so does every later call then. Dropping
the drain frees the vector's buffer once, and nothing else; the vector that goes on has none. -/
theorem drain_conserves (v : Vector α) (sides : List Side) :
    let taken := ((Drain.ofVector v).takeAll sides).1
    let drain := ((Drain.ofVector v).takeAll sides).2
    (Drain.takenFrom .left sides taken ++ drain.rest.toList ++ (Drain.takenFrom .right sides taken).reverse =
      v.items.toList) ∧
    drain.size = drain.rest.size ∧
    (∀ side, (drain.takeFrom side).1 = none ↔ drain.rest = #[]) ∧
    (drain.rest = #[] → ∀ later, drain.takeAll later = (later.map fun _ => (none, 0), drain)) ∧
    (∀ pool id, ((Container.dispose drain pool).get id).history =
      (pool.get id).history.free? (v.engine.owned α id)) ∧
    ∀ pool, Sure (Vector.drain sides) ⟨v, pool⟩ fun drained after =>
      drained.taken = taken ∧ drained.rest = drain.rest ∧ after.pool = Container.dispose drain pool ∧
        ∀ id, Holding.owned after.container id = none := by
  intro taken drain
  have start := Drain.ofVector_rests v
  obtain ⟨-, rests, engine⟩ := Drain.takeAll_rests sides start
  have conserves := Drain.takeAll_conserves sides start
  refine ⟨conserves, ?_, Drain.takeFrom_none_iff rests, ?_, ?_, ?_⟩
  · rw [rests.size_eq, ← rests.rest_eq, Array.length_toList]
  · intro empty later
    have none := (Drain.rests_nil_iff rests).mp empty
    exact Drain.takeAll_nil (none ▸ rests) later
  · intro pool id
    have same : drain.engine = v.engine := engine
    exact same ▸ drain.engine.release_history pool id
  · exact fun pool => ⟨rfl, rfl, rfl, v.engine.owned_fresh⟩

/-- The two ends meet on one element, which is taken once. -/
example : ((Drain.ofVector (⟨.inline 3, #[5, 6, 7]⟩ : Vector Nat)).takeAll [.right, .left, .right, .left]).1 =
    [(some 7, 2), (some 5, 1), (some 6, 0), (none, 0)] := by decide

end Containers.Vector
