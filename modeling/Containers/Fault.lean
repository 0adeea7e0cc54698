import Containers.Memory.Layout
import Containers.Side
import Containers.Tree.Link

/-! What can go wrong. A refused request is handed back to the caller or ends
the run; a broken precondition is a panic with a cause; and each cause has one
text. -/
namespace Containers

/-- The first broken condition that a check of a tree finds. -/
inductive Violation where
  | redRoot
  | redSentinel
  | rootWithParent
  | notChildOfParent (node : Link)
  | staleParent (side : Side) (node : Link)
  | redChild (side : Side) (node : Link)
  | keysOutOfOrder (node : Link)
  | unequalBlackHeights (node : Link)
  | wrongCount
deriving DecidableEq

/-- The text of a broken tree condition. -/
def Violation.message : Violation → String
  | .redRoot => "root must be black"
  | .redSentinel => "sentinel must be black"
  | .rootWithParent => "root must not have a parent"
  | .notChildOfParent node => s!"{node.text} is not a child of its parent"
  | .staleParent side node => s!"{side.text} child of {node.text} has a stale parent"
  | .redChild side node => s!"red {node.text} has a red {side.text} child"
  | .keysOutOfOrder node => s!"keys out of order at {node.text}"
  | .unequalBlackHeights node => s!"black height differs below {node.text}"
  | .wrongCount => "node count does not match len"

/-- The ways to reach an end of a vector that has none. -/
inductive EndAccess where
  | front
  | frontWrite
  | back
  | backWrite
deriving DecidableEq

/-- The name of an access to an end. -/
def EndAccess.text : EndAccess → String
  | .front => "front()"
  | .frontWrite => "front_mut()"
  | .back => "back()"
  | .backWrite => "back_mut()"

/-- A broken precondition, with the numbers that its text shows. -/
inductive Panic where
  | index (position size : Nat)
  | insertIndex (position size : Nat)
  | eraseIndex (position size : Nat)
  | eraseRangeEnd (stop size : Nat)
  | startIndex (start size : Nat)
  | emptyVector (access : EndAccess)
  | capacityOverflow
  | discardWithoutGrowth
  | fixedCapacity (requested capacity : Nat)
  | foreignNode (node : Link)
  | treeStorageInUse
  | invalidTree (violation : Violation)
deriving DecidableEq

/-- The text of a broken precondition. -/
def Panic.message : Panic → String
  | .index position size => s!"index {position} out of bounds (len {size})"
  | .insertIndex position size => s!"insert index {position} out of bounds (len {size})"
  | .eraseIndex position size => s!"erase index {position} out of bounds (len {size})"
  | .eraseRangeEnd stop size => s!"erase range end {stop} out of bounds (len {size})"
  | .startIndex start size => s!"start index {start} out of bounds (len {size})"
  | .emptyVector access => s!"{access.text} on empty vector"
  | .capacityOverflow => "capacity overflow"
  | .discardWithoutGrowth => "reallocate_discard_old must grow the buffer"
  | .fixedCapacity requested capacity =>
    s!"fixed-capacity storage cannot grow: requested {requested}, capacity is {capacity}"
  | .foreignNode node => s!"erase of a node not in this tree: {node.text}"
  | .treeStorageInUse => "tree storage must start empty"
  | .invalidTree violation => violation.message

/-- Why an operation did not answer. -/
inductive Fault where
  /-- An allocator refused this layout, and the caller is told so. -/
  | refused (layout : Layout)
  /-- An allocator refused this layout, and the whole run ends. -/
  | aborted (layout : Layout)
  /-- A precondition was broken. -/
  | panicked (cause : Panic)
  /-- A slot or a range of slots lies outside the sequence it names. -/
  | outOfRange
  /-- A walk along links took more steps than there are nodes. -/
  | endless
deriving DecidableEq

/-- The text that goes with a refused request. -/
def refusalMessage : String :=
  "memory allocation failed"

end Containers
