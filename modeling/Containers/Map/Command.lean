import Containers.Map.Basic
import Containers.Tree.Command

/-! Everything that can be asked of an ordered map. -/
namespace Containers.Map
variable {κ ν : Type}

/-- What the cursors over entries, keys and values yielded side by side, how
many each then had left, and all entries. -/
structure Walk (κ ν : Type) where
  entries : List (Option (κ × ν))
  keys : List (Option κ)
  values : List (Option ν)
  entriesLeft : Nat
  keysLeft : Nat
  valuesLeft : Nat
  all : List (κ × ν)

/-- Takes so many items from each of the three cursors. -/
def walk (map : Map κ ν) (calls : Nat) : Except Fault (Walk κ ν) := do
  let (entries, entryCursor) ← Tree.advanceMany map calls (← Tree.cursor map)
  let (keys, keyCursor) ← Tree.advanceMany map calls (← Tree.cursor map)
  let (values, valueCursor) ← Tree.advanceMany map calls (← Tree.cursor map)
  return {
    entries
    keys := keys.map (Option.map Prod.fst)
    values := values.map (Option.map Prod.snd)
    entriesLeft := entryCursor.remaining
    keysLeft := keyCursor.remaining
    valuesLeft := valueCursor.remaining
    all := ← Tree.toList map }

/-- What can be asked of a map. -/
inductive Command (κ ν : Type) where
  | insert (k : κ) (value : ν)
  | tryInsert (k : κ) (value : ν)
  | get (k : κ)
  | setValue (k : κ) (value : ν)
  | contains (k : κ)
  | remove (k : κ)
  | extreme (side : Side)
  | clear
  | iterate (calls : Nat)
  | text
  /-- An empty map over a fresh storage. -/
  | renew
  | renewFrom (pairs : List (κ × ν))
  /-- A question to the tree under the map. -/
  | ask (query : Tree.Query κ)

/-- What a map answers. -/
inductive Reply (κ ν : Type) where
  | done
  | value? (value : Option ν)
  | flag (value : Bool)
  | pair? (pair : Option (κ × ν))
  | walk (walk : Walk κ ν)
  | text (text : String)
  | answer (answer : Tree.Answer (κ × ν))

variable [Ord κ] [Shown κ] [Shown ν] [Stored κ] [Stored ν]

/-- Carries out a command. -/
def Command.perform : Command κ ν → Op (Map κ ν) (Reply κ ν)
  | .insert k value => Reply.value? <$> Map.insert k value
  | .tryInsert k value => Reply.value? <$> Map.tryInsert k value
  | .get k => Reply.value? <$> Op.look (Map.get? · k)
  | .setValue k value => Reply.value? <$> Map.setValue k value
  | .contains k => Reply.flag <$> Op.look (Tree.contains · k)
  | .remove k => Reply.value? <$> Map.remove k
  | .extreme side => Reply.pair? <$> Op.look (Map.extreme? · side)
  | .clear => do Tree.clear; return .done
  | .iterate calls => Reply.walk <$> Op.look (Map.walk · calls)
  | .text => Reply.text <$> Op.look Map.text
  | .renew => do Tree.renewOver (pure ()); return .done
  | .renewFrom pairs => do Map.renewFrom pairs; return .done
  | .ask query => Reply.answer <$> Op.look (Tree.answer · query)

end Containers.Map
