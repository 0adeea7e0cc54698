import Containers.Tree.Descent

/-! Walking over the values of a tree in the order of their keys. -/
namespace Containers

/-- The node whose value comes next, and how many values are left. -/
structure Cursor where
  next : Link
  remaining : Nat

namespace Tree
variable {α : Type}

/-- A cursor before the first value. -/
def cursor (tree : Tree α) : Except Fault Cursor :=
  (fun first => ⟨first, tree.size⟩) <$> tree.first

/-- The next value, if any is left, and the cursor behind it. -/
def advance (tree : Tree α) (cursor : Cursor) : Except Fault (Option α × Cursor) :=
  match cursor.next with
  | none => .ok (none, cursor)
  | some slot => do
    let next ← tree.next (some slot)
    return (tree.value? (some slot), ⟨next, cursor.remaining - 1⟩)

/-- The answers to so many calls for the next value, and the cursor then. -/
def advanceMany (tree : Tree α) : Nat → Cursor → Except Fault (List (Option α) × Cursor)
  | 0, cursor => .ok ([], cursor)
  | calls + 1, cursor => do
    let (answer, behind) ← tree.advance cursor
    let (answers, last) ← advanceMany tree calls behind
    return (answer :: answers, last)

/-- The values that a cursor still yields, up to the first call without one. -/
def drainWithin (tree : Tree α) : Nat → Cursor → Except Fault (List α)
  | 0, _ => .error .endless
  | calls + 1, cursor => do
    match ← tree.advance cursor with
    | (none, _) => return []
    | (some value, behind) => return value :: (← drainWithin tree calls behind)

/-- The values that a cursor still yields. -/
def drain (tree : Tree α) (cursor : Cursor) : Except Fault (List α) :=
  tree.drainWithin tree.stepLimit cursor

/-- All values in the order of their keys. -/
def toList (tree : Tree α) : Except Fault (List α) := do
  tree.drain (← tree.cursor)

end Tree

end Containers
