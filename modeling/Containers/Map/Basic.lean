import Containers.Tree.Build
import Containers.Tree.Erase
import Containers.Tree.Text

/-! An ordered map on a tree of pairs. Inserting a key that is present replaces
its value, and the key keeps the spelling that it was first filed under. -/
namespace Containers

/-- A map as a tree of pairs. -/
abbrev Map (κ ν : Type) := Tree (κ × ν)

namespace Map
variable {κ ν : Type} [Ord κ]

/-- Overwrites the value filed under `k` and answers the old one. -/
def setValue (k : κ) (value : ν) : Op (Map κ ν) (Option ν) := do
  let tree ← Op.current
  match ← Op.look (·.find? k) with
  | none => return none
  | some slot =>
    Op.update fun tree =>
      { tree with
        nodes.items := tree.nodes.items.modify slot fun node =>
          { node with value := (node.value.1, value) } }
    return (tree.value? (some slot)).map Prod.snd

/-- The value filed under `k`. -/
def get? (map : Map κ ν) (k : κ) : Except Fault (Option ν) :=
  Option.map Prod.snd <$> Tree.get? map k

/-- The pair at one end of the key order, if there is any. -/
def extreme? (map : Map κ ν) (side : Side) : Except Fault (Option (κ × ν)) :=
  Tree.value? map <$> Tree.extreme map side

variable [Stored κ] [Stored ν]

/-- Files a value under a key and answers the value that it replaced. -/
def tryInsert (k : κ) (value : ν) : Op (Map κ ν) (Option ν) := do
  match ← setValue k value with
  | some old => return some old
  | none =>
    let _ ← Tree.tryInsert (k, value)
    return none

/-- Files a value under a key. -/
def insert (k : κ) (value : ν) : Op (Map κ ν) (Option ν) :=
  Op.orAbort (tryInsert k value)

/-- Takes out the value filed under a key. -/
def remove (k : κ) : Op (Map κ ν) (Option ν) :=
  Option.map Prod.snd <$> Tree.remove k

/-- Begins anew with these pairs, of which the last with each key counts. -/
def renewFrom (pairs : List (κ × ν)) : Op (Map κ ν) Unit := do
  let made ← Op.build (Tree.fresh (← Op.current)) do
    pairs.forM fun (k, value) => do
      let _ ← insert k value
  Op.replace made

/-- The text of a map: every key with its value. -/
def text [Shown κ] [Shown ν] (map : Map κ ν) : Except Fault String :=
  (fun pairs => Text.braced (pairs.map fun (k, value) => Shown.text k ++ ": " ++ Shown.text value))
    <$> Tree.toList map

end Map

end Containers
