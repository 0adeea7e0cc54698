/-! The two sides on which a child hangs below a node, which are also the two
ends of a sequence. -/
namespace Containers

/-- Left or right. -/
inductive Side where
  | left
  | right
deriving DecidableEq

/-- The other side. -/
def Side.opposite : Side → Side
  | .left => .right
  | .right => .left

/-- How a side is shown. -/
def Side.text : Side → String
  | .left => "left"
  | .right => "right"

end Containers
