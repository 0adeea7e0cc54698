import Containers.Tree.Iter
import Containers.Text.Shown

/-! Trees and nodes as text. -/
namespace Containers

/-- The text of a node: its value, its colour and its links. -/
def Node.text [Shown α] (node : Node α) : String :=
  Text.record "Node" [
    ("value", Shown.text node.value),
    ("color", node.links.color.text),
    ("left", Link.text node.links.left),
    ("right", Link.text node.links.right),
    ("parent", Link.text node.links.parent)]

/-- The text of a tree: its values in the order of their keys. -/
def Tree.text [Shown α] (tree : Tree α) : Except Fault String :=
  (fun values => Text.braced (values.map Shown.text)) <$> tree.toList

end Containers
