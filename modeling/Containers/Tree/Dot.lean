import Containers.Tree.Basic
import Containers.Text.Shown

/-! Trees as directed graphs in the Graphviz language, and the writing of a text
to a place that may be full before the text ends. -/
namespace Containers

/-- A place for text with room for a number of bytes. -/
structure Sink where
  text : String := ""
  room : Nat

namespace Sink

/-- The first characters that fit into so many bytes, the bytes left behind
them, and whether all of them fitted. -/
def takeFitting : List Char → Nat → List Char × Nat × Bool
  | [], room => ([], room, true)
  | c :: rest, room =>
    if c.utf8Size ≤ room then
      let (taken, left, all) := takeFitting rest (room - c.utf8Size)
      (c :: taken, left, all)
    else ([], 0, false)

/-- Writes as many whole characters as fit, and fails if that is not all. -/
def write (piece : String) : EStateM Unit Sink Unit :=
  fun sink =>
    let (taken, room, all) := takeFitting piece.toList sink.room
    let after : Sink := ⟨sink.text ++ String.ofList taken, room⟩
    if all then .ok () after else .error () after

end Sink

/-- The name of a colour in the Graphviz language. -/
def Color.dotName : Color → String
  | .red => "red"
  | .black => "black"

namespace Tree
variable {α κ : Type} [Keyed α κ] [Shown κ]

section Writing
variable {m : Type → Type} [Monad m]

/-- Writes the statement that draws the edge to a child, if the child is there. -/
def writeEdge (write : String → m Unit) (slot : Nat) : Link → m Unit
  | none => pure ()
  | some child => do
    write "\"n"
    write (toString slot)
    write "\" -> \"n"
    write (toString child)
    write "\";\n"

/-- Writes the statement that draws a node, and the edges to its children behind it. -/
def writeNode (write : String → m Unit) (slot : Nat) (node : Node α) : m Unit := do
  write "\"n"
  write (toString slot)
  write "\" [label=\""
  write (Shown.text (Keyed.key node.value))
  write "\"; style=filled; fillcolor="
  write node.links.color.dotName
  write "; fontcolor=white];\n"
  [node.links.left, node.links.right].forM (writeEdge write slot)

/-- Writes the graph, the nodes by slot, and stops at the first failure. -/
def writeDot (tree : Tree α) (write : String → m Unit) : m Unit := do
  write "digraph G \x7b\n"
  tree.nodes.items.toList.zipIdx.forM fun (node, slot) => writeNode write slot node
  write "\x7d\n"

end Writing

/-- The text of the graph: what is written to a text without a limit. -/
def toDot (tree : Tree α) : String :=
  (tree.writeDot (m := StateM String) (fun piece => modify (· ++ piece)) "").2

/-- Writes the graph to a sink with room for so many bytes: whether it all
fitted, and what the sink holds. -/
def writeDotWithin (tree : Tree α) (room : Nat) : Bool × String :=
  match tree.writeDot Sink.write ⟨"", room⟩ with
  | .ok _ sink => (true, sink.text)
  | .error _ sink => (false, sink.text)

end Tree

end Containers
