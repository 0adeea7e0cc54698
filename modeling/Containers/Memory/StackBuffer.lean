import Containers.Memory.Allocator
import Containers.Text.Shown

/-! A buffer of fixed size from whose front blocks are carved. Blocks are never
reclaimed one by one: only resetting the buffer makes room again. -/
namespace Containers

/-- A buffer of so many bytes, the bytes handed out with the padding between
blocks, and what was asked of the buffer since the last reset. -/
structure StackBuffer where
  capacity : Nat
  top : Nat := 0
  history : History := []

namespace StackBuffer

/-- The bytes handed out. -/
def used (buffer : StackBuffer) : Nat :=
  buffer.top

/-- The bytes behind the last block. -/
def remaining (buffer : StackBuffer) : Nat :=
  buffer.capacity - buffer.used

/-- The buffer as an allocator; every copy of a handle stands for this one. -/
def allocator (buffer : StackBuffer) : Allocator :=
  ⟨.endsWithin buffer.capacity, buffer.top, buffer.history⟩

/-- The buffer after its allocator was used. -/
def after (buffer : StackBuffer) (allocator : Allocator) : StackBuffer :=
  { buffer with top := allocator.top, history := allocator.history }

/-- Carves a block off, if it ends within the buffer. -/
def allocate (layout : Layout) (buffer : StackBuffer) : Option Block × StackBuffer :=
  let (answer, allocator) := buffer.allocator.allocate layout
  (answer, buffer.after allocator)

/-- Takes a block back, which makes no room. -/
def free (block : Block) (buffer : StackBuffer) : StackBuffer :=
  buffer.after (buffer.allocator.free block)

/-- Makes the whole buffer available again. -/
def reset (buffer : StackBuffer) : StackBuffer :=
  { buffer with top := 0, history := [] }

/-- The text of a buffer. -/
def text (buffer : StackBuffer) : String :=
  Text.record "StackBuffer" [
    ("capacity", toString buffer.capacity), ("used", toString buffer.used)]

/-- The text of a handle to a buffer. -/
def handleText (buffer : StackBuffer) : String :=
  "StackAllocator(" ++ buffer.text ++ ")"

end StackBuffer

end Containers
