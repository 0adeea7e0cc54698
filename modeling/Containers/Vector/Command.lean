import Containers.Vector.Drain
import Containers.Text.Shown

/-! Everything that can be asked of a vector, as one type of commands and one
type of replies. -/
namespace Containers.Vector

/-- The text of a vector. -/
def text [Shown α] (v : Vector α) : String :=
  Text.list (v.items.toList.map Shown.text)

/-- Whether two sequences have equal elements in the same places. -/
def sameItems [BEq α] (xs ys : Array α) : Bool :=
  xs == ys

/-- What can be asked of a vector. -/
inductive Command (α : Type) where
  | push (x : α)
  | tryPush (x : α)
  | pushDefault
  | pop
  | insert (position : Nat) (x : α)
  | tryInsert (position : Nat) (x : α)
  | insertMany (position n : Nat) (x : α)
  | tryInsertMany (position n : Nat) (x : α)
  | remove (position : Nat)
  | erase (position : Nat)
  | eraseRange (start stop : Nat)
  | swapErase (position : Nat)
  | truncate (size : Nat)
  | clear
  | reset
  | resize (size : Nat)
  | resizeWith (size : Nat) (x : α)
  | reserve (capacity : Nat)
  | tryReserve (capacity : Nat)
  | setCapacity (capacity : Nat)
  | assign (items : List α)
  | tryAssign (items : List α)
  | extend (items : List α)
  | extendHinted (items : List α) (promised : Nat)
  | get (position : Nat)
  | front
  | back
  | item (position : Nat)
  | set (position : Nat) (x : α)
  | setFront (x : α)
  | setBack (x : α)
  | setItem (position : Nat) (x : α)
  | modifyEach (change : α → α)
  | isEmpty
  | find (x : α)
  | findFrom (x : α) (start : Nat)
  | compare (items : List α)
  | text
  | clone
  | becomeClone
  | drain (sides : List Side)
  /-- A fresh empty vector. -/
  | renew
  /-- A vector over a fresh storage, and whether that storage is in order. -/
  | overStorage
  /-- A vector of so many default values. -/
  | renewSized (size : Nat)
  /-- A vector that holds a copy of a list. -/
  | renewFrom (items : List α)
  /-- As before, but the elements come one by one. -/
  | collect (items : List α)
  | allocator
  | setAllocator (id : AllocatorId)

/-- What a vector answers. -/
inductive Reply (α : Type) where
  | done
  | place (position : Nat)
  | place? (position : Option Nat)
  | element (x : α)
  | element? (x : Option α)
  | flag (value : Bool)
  | comparison (ofVectors ofVectorsSwapped ofItems : Bool)
  | text (text : String)
  | copy (made : Vector α) (equal : Bool)
  | drained (result : Drained α)
  | allocator (id : Option AllocatorId)

variable [Stored α] [BEq α] [Inhabited α] [Shown α]

/-- Carries out a command. -/
def Command.perform : Command α → Op (Vector α) (Reply α)
  | .push x => do Vector.push x; return .done
  | .tryPush x => do Vector.tryPush x; return .done
  | .pushDefault => do Vector.push default; return .done
  | .pop => Reply.element? <$> Vector.pop
  | .insert position x => Reply.place <$> Vector.insert position x
  | .tryInsert position x => Reply.place <$> Vector.tryInsert position x
  | .insertMany position n x => Reply.place <$> Vector.insertMany position n x
  | .tryInsertMany position n x => Reply.place <$> Vector.tryInsertMany position n x
  | .remove position => Reply.element <$> Vector.remove position
  | .erase position => Reply.place <$> Vector.erase position
  | .eraseRange start stop => Reply.place <$> Vector.eraseRange start stop
  | .swapErase position => Reply.element <$> Vector.swapErase position
  | .truncate size => do Vector.truncate size; return .done
  | .clear => do Vector.clear; return .done
  | .reset => do Storage.reset; return .done
  | .resize size => do Vector.resize size; return .done
  | .resizeWith size x => do Vector.resizeWith size x; return .done
  | .reserve capacity => do Vector.reserve capacity; return .done
  | .tryReserve capacity => do Vector.tryReserve capacity; return .done
  | .setCapacity capacity => do Vector.setCapacity capacity; return .done
  | .assign items => do Vector.assign items; return .done
  | .tryAssign items => do Vector.tryAssign items; return .done
  | .extend items => do Vector.extend items; return .done
  | .extendHinted items promised => do Vector.extendHinted items promised; return .done
  | .get position => Reply.element <$> Vector.get position
  | .front => Reply.element <$> Vector.front
  | .back => Reply.element <$> Vector.back
  | .item position => Reply.element <$> Vector.item position
  | .set position x => do Vector.set position x; return .done
  | .setFront x => do Vector.setFront x; return .done
  | .setBack x => do Vector.setBack x; return .done
  | .setItem position x => do Vector.setItem position x; return .done
  | .modifyEach change => do Vector.modifyEach change; return .done
  | .isEmpty => do return .flag ((← Op.current).size = 0)
  | .find x => Reply.place? <$> Vector.find x
  | .findFrom x start => Reply.place? <$> Vector.findFrom x start
  | .compare items => do
    let v ← Op.current
    return .comparison (sameItems v.items items.toArray) (sameItems items.toArray v.items)
      (sameItems v.items items.toArray)
  | .text => do return .text (Vector.text (← Op.current))
  | .clone => do
    let v ← Op.current
    let made ← Vector.clone v
    Op.settle (Container.dispose made)
    return .copy made (sameItems made.items v.items)
  | .becomeClone => do
    let made ← Vector.clone (← Op.current)
    Op.replace made
    return .done
  | .drain sides => Reply.drained <$> Vector.drain sides
  | .renew => do Vector.renew (pure ()); return .done
  | .overStorage => do
    Vector.renew (pure ())
    return .flag (Storage.Fits (← Op.current))
  | .renewSized size => do Vector.renew (Vector.resize size); return .done
  | .renewFrom items => do Vector.renew (Vector.assign items); return .done
  | .collect items => do Vector.renew (Vector.extend items); return .done
  | .allocator => do return .allocator (← Op.current).engine.allocator?
  | .setAllocator id => do Storage.setAllocator id; return .done

end Containers.Vector
