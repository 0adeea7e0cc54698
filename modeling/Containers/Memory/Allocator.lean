import Containers.Memory.Layout

/-! Allocators that place every block behind all blocks granted before it, so
that one address names one block for ever, and differ only in the rule by which
they refuse. Each keeps a history of what it answered. Counts of grants, bytes
and refusals are read off the history and are not kept beside it. -/
namespace Containers

/-- A run of bytes that was granted. -/
structure Block where
  start : Nat
  layout : Layout
deriving DecidableEq

/-- The first address behind the block. -/
def Block.stop (block : Block) : Nat :=
  block.start + block.layout.size

/-- What passed between an allocator and its users. -/
inductive Event where
  | granted (block : Block)
  | refused (layout : Layout)
  | freed (block : Block)
deriving DecidableEq

/-- The events of an allocator, the latest first. -/
abbrev History := List Event

namespace History

/-- The blocks granted so far, the latest first. -/
def grants (history : History) : List Block :=
  history.filterMap fun
    | .granted block => some block
    | _ => none

/-- The blocks freed so far, the latest first. -/
def frees (history : History) : List Block :=
  history.filterMap fun
    | .freed block => some block
    | _ => none

/-- The layouts refused so far, the latest first. -/
def refusals (history : History) : List Layout :=
  history.filterMap fun
    | .refused layout => some layout
    | _ => none

/-- The bytes that a list of blocks spans. -/
def bytes (blocks : List Block) : Nat :=
  blocks.foldr (fun block total => block.layout.size + total) 0

/-- The bytes granted and not yet freed. -/
def live (history : History) : Nat :=
  bytes history.grants - bytes history.frees

end History

/-- Whether a request is granted, given what went before and the block that it
would get. -/
abbrev Rule := History → Block → Bool

namespace Rule

/-- Every request is granted. -/
def unlimited : Rule :=
  fun _ _ => true

/-- A request is granted while the live bytes stay within `limit`. -/
def liveWithin (limit : Nat) : Rule :=
  fun history block => history.live + block.layout.size ≤ limit

/-- A request is granted when its block ends within a buffer of `capacity`
bytes, whose first byte is aligned to every alignment asked for. One comparison
stands for three checks, of the sum with the padding, of the sum with the size
and of the end: a capacity is a machine word, so a sum that overflows a word is
the start or the end of a block that does not fit. -/
def endsWithin (capacity : Nat) : Rule :=
  fun _ block => block.stop ≤ capacity

end Rule

/-- A rule, the first address behind all blocks granted so far, and everything
that was asked. -/
structure Allocator where
  rule : Rule
  top : Nat := 0
  history : History := []

namespace Allocator

/-- Where the next block of this layout goes. -/
def place (layout : Layout) (allocator : Allocator) : Block :=
  ⟨alignUp allocator.top layout.align, layout⟩

/-- Whether the next block of this layout is granted. -/
def admits (layout : Layout) (allocator : Allocator) : Bool :=
  allocator.rule allocator.history (allocator.place layout)

/-- Grants the request behind all earlier blocks, or records the refusal. -/
def allocate (layout : Layout) (allocator : Allocator) : Option Block × Allocator :=
  if allocator.admits layout then
    let block := allocator.place layout
    (some block, { allocator with
      top := block.stop
      history := .granted block :: allocator.history })
  else
    (none, { allocator with history := .refused layout :: allocator.history })

/-- Takes a block back. No later block reuses its place. -/
def free (block : Block) (allocator : Allocator) : Allocator :=
  { allocator with history := .freed block :: allocator.history }

end Allocator

/-- The counts that the history of an allocator amounts to. -/
structure Tally where
  grants : Nat
  frees : Nat
  granted : Nat
  freed : Nat
  refused : Nat
  used : Nat
deriving DecidableEq

/-- Blocks granted and freed, the bytes of each, requests refused, and the end
of the latest block. -/
def Allocator.tally (allocator : Allocator) : Tally where
  grants := allocator.history.grants.length
  frees := allocator.history.frees.length
  granted := History.bytes allocator.history.grants
  freed := History.bytes allocator.history.frees
  refused := allocator.history.refusals.length
  used := allocator.top

end Containers
