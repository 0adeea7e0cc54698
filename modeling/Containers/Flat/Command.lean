import Containers.Flat.Map
import Containers.Flat.MultiMap

/-! Everything that can be asked of a map or a multimap on a sorted run. -/
namespace Containers

/-- What can be asked of a sorted map. -/
inductive FlatMap.Command (κ ν : Type) where
  | insert (k : κ) (value : ν)
  | tryInsert (k : κ) (value : ν)
  | find (k : κ)
  | get (k : κ)
  | setValue (k : κ) (value : ν)
  | erase (k : κ)
  | eraseAt (position : Nat)
  | remove (k : κ)
  | lowerBound (k : κ)
  | upperBound (k : κ)
  | isEmpty
  | iterate
  | clear
  | renewFrom (pairs : List (κ × ν))

/-- What a sorted map answers. -/
inductive FlatMap.Reply (κ ν : Type) where
  | done
  | inserted (position : Nat) (isNew : Bool)
  | place (position : Nat)
  | place? (position : Option Nat)
  | value? (value : Option ν)
  | pair? (pair : Option (κ × ν))
  | flag (value : Bool)
  /-- The pairs by both ways of walking over them. -/
  | walks (items : Array (κ × ν))

/-- What can be asked of a sorted multimap. -/
inductive FlatMultiMap.Command (κ ν : Type) where
  | insert (k : κ) (value : ν)
  | tryInsert (k : κ) (value : ν)
  | find (k : κ)
  | count (k : κ)
  | equalRange (k : κ)
  | getAll (k : κ)
  | findValue (value : ν) (start stop : Nat)
  | erase (k : κ)
  | eraseAt (position : Nat)
  | lowerBound (k : κ)
  | upperBound (k : κ)
  | isEmpty
  | iterate
  | clear
  | renewFrom (pairs : List (κ × ν))

/-- What a sorted multimap answers. -/
inductive FlatMultiMap.Reply (κ ν : Type) where
  | done
  | place (position : Nat)
  | place? (position : Option Nat)
  | range (start stop : Nat)
  | flag (value : Bool)
  | pairs (items : Array (κ × ν))
  /-- The pairs by both ways of walking over them. -/
  | walks (items : Array (κ × ν))

variable {κ ν : Type} [Ord κ] [Stored κ] [Stored ν]

/-- Carries out a command on a sorted map. -/
def FlatMap.Command.perform [BEq κ] : FlatMap.Command κ ν → Op (FlatMap κ ν) (FlatMap.Reply κ ν)
  | .insert k value => do
    let (position, isNew) ← FlatMap.insert k value
    return .inserted position isNew
  | .tryInsert k value => do
    let (position, isNew) ← FlatMap.tryInsert k value
    return .inserted position isNew
  | .find k => do return .place? (FlatMap.findIdx? (← Op.current) k)
  | .get k => do return .value? (FlatMap.get? (← Op.current) k)
  | .setValue k value => Reply.value? <$> FlatMap.setValue k value
  | .erase k => Reply.place <$> FlatMap.erase k
  | .eraseAt position => Reply.place <$> FlatMap.eraseAt position
  | .remove k => Reply.pair? <$> FlatMap.remove k
  | .lowerBound k => do return .place (Flat.lowerBound k (← Op.current).items)
  | .upperBound k => do return .place (Flat.upperBound k (← Op.current).items)
  | .isEmpty => do return .flag ((← Op.current).size = 0)
  | .iterate => do return .walks (← Op.current).items
  | .clear => do Vector.clear; return .done
  | .renewFrom pairs => do FlatMap.renewFrom pairs; return .done

/-- Carries out a command on a sorted multimap. -/
def FlatMultiMap.Command.perform [BEq ν] :
    FlatMultiMap.Command κ ν → Op (FlatMultiMap κ ν) (FlatMultiMap.Reply κ ν)
  | .insert k value => Reply.place <$> FlatMultiMap.insert k value
  | .tryInsert k value => Reply.place <$> FlatMultiMap.tryInsert k value
  | .find k => do return .place? (FlatMultiMap.findIdx? (← Op.current) k)
  | .count k => do return .place (FlatMultiMap.count (← Op.current) k)
  | .equalRange k => do
    let (start, stop) := FlatMultiMap.equalRange (← Op.current) k
    return .range start stop
  | .getAll k => do return .pairs (FlatMultiMap.getAll (← Op.current) k)
  | .findValue value start stop => Reply.place? <$> FlatMultiMap.findValue value start stop
  | .erase k => Reply.place <$> FlatMultiMap.erase k
  | .eraseAt position => Reply.place <$> FlatMultiMap.eraseAt position
  | .lowerBound k => do return .place (Flat.lowerBound k (← Op.current).items)
  | .upperBound k => do return .place (Flat.upperBound k (← Op.current).items)
  | .isEmpty => do return .flag ((← Op.current).size = 0)
  | .iterate => do return .walks (← Op.current).items
  | .clear => do Vector.clear; return .done
  | .renewFrom pairs => do FlatMultiMap.renewFrom pairs; return .done

end Containers
