import Containers.Storage.Basic

/-! Everything that can be asked of a bare storage. -/
namespace Containers.Storage

/-- What can be asked of a bare storage. -/
inductive Command (α : Type) where
  | put (x : α)
  | reallocate (count : Nat)
  | reallocateDiscarding (count : Nat)
  | reset
  /-- Gives the storage to a vector, which is dropped, and begins anew. -/
  | intoVector
  | setAllocator (id : AllocatorId)

/-- What a bare storage answers. -/
inductive Reply (α : Type) where
  | done
  | flag (value : Bool)
  | vector (made : Storage α)

variable [Stored α]

/-- Carries out a command. -/
def Command.perform : Command α → Op (Storage α) (Reply α)
  | .put x => Reply.flag <$> Storage.put x
  | .reallocate count => do Storage.reallocate count; return .done
  | .reallocateDiscarding count => do Storage.reallocateDiscarding count; return .done
  | .reset => do Storage.reset; return .done
  | .intoVector => do
    let storage ← Op.current
    Op.become ⟨storage.engine.fresh, #[]⟩
    Op.settle (Container.dispose storage)
    return .vector storage
  | .setAllocator id => do Storage.setAllocator id; return .done

end Containers.Storage
