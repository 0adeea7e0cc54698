/-! Links between the nodes of a tree. A link is the slot of a node in the
tree's arena, or the sentinel, which stands for every missing child and for
the parent of the root. -/
namespace Containers

/-- A slot of the arena, or `none` for the sentinel. -/
abbrev Link := Option Nat

/-- How a link is shown. -/
def Link.text : Link → String
  | none => "NodeId(sentinel)"
  | some slot => s!"NodeId({slot})"

/-- A node is red or black; the black ones are counted along every path. -/
inductive Color where
  | red
  | black
deriving DecidableEq

/-- How a colour is shown. -/
def Color.text : Color → String
  | .red => "Red"
  | .black => "Black"

end Containers
