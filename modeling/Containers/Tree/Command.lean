import Containers.Tree.Build
import Containers.Tree.Dot
import Containers.Tree.Erase
import Containers.Tree.Text
import Containers.Tree.Traverse
import Containers.Tree.Validate

/-! Everything that can be asked of a tree: the questions that only look, and
the commands that may change it. -/
namespace Containers.Tree
variable {α κ : Type}

/-- A question to a tree, which changes nothing. -/
inductive Query (κ : Type) where
  | find (k : κ)
  | first
  | last
  | root
  | next (link : Link)
  | value (link : Link)
  | node (link : Link)
  | subtreeSize (link : Link)
  | validate
  | isEmpty
  | traverse
  | toDot
  | writeDot (room : Nat)

/-- The answer to a question. -/
inductive Answer (α : Type) where
  | link (link : Link)
  | value? (value : Option α)
  | nodeText (text : Option String)
  | number (n : Nat)
  | flag (value : Bool)
  | visits (visits : List (Visit α))
  | text (text : String)
  | written (complete : Bool) (text : String)

/-- Answers a question. -/
def answer [Keyed α κ] [Ord κ] [Shown κ] [Shown α] (tree : Tree α) :
    Query κ → Except Fault (Answer α)
  | .find k => .link <$> tree.find? k
  | .first => .link <$> tree.first
  | .last => .link <$> tree.last
  | .root => .ok (.link tree.root)
  | .next link => .link <$> tree.next link
  | .value link => .ok (.value? (tree.value? link))
  | .node link => .ok (.nodeText ((tree.node? link).map Node.text))
  | .subtreeSize link => .number <$> tree.subtreeSize link
  | .validate => .number <$> tree.validate
  | .isEmpty => .ok (.flag tree.isEmpty)
  | .traverse => .visits <$> tree.traverse
  | .toDot => .ok (.text tree.toDot)
  | .writeDot room =>
    let (complete, text) := tree.writeDotWithin room
    .ok (.written complete text)

/-- What a cursor yielded, how many values it then had left, what a copy of it
still yields, and what the whole tree yields. -/
structure Walk (α : Type) where
  taken : List (Option α)
  remaining : Nat
  rest : List α
  all : List α

/-- Takes so many values from a cursor at the beginning. -/
def walk (tree : Tree α) (calls : Nat) : Except Fault (Walk α) := do
  let (taken, cursor) ← tree.advanceMany calls (← tree.cursor)
  return ⟨taken, cursor.remaining, ← tree.drain cursor, ← tree.toList⟩

/-- What can be asked of a tree. -/
inductive Command (α κ : Type) where
  | insert (value : α)
  | tryInsert (value : α)
  | get (k : κ)
  | contains (k : κ)
  | erase (k : κ)
  | remove (k : κ)
  | eraseNode (link : Link)
  | clear
  | iterate (calls : Nat)
  | text
  /-- An empty tree over a fresh storage. -/
  | renew
  /-- A tree over a fresh storage with at least so many slots, of which the
  first are marked as holding nodes. -/
  | renewOver (slots : Nat) (nodes : List (Node α))
  | renewFrom (values : List α)
  | ask (query : Query κ)

/-- What a tree answers. -/
inductive Reply (α : Type) where
  | done
  | slot (slot : Nat)
  | count (n : Nat)
  | flag (value : Bool)
  | value (value : α)
  | value? (value : Option α)
  | walk (walk : Walk α)
  | text (text : String)
  | answer (answer : Answer α)

variable [Keyed α κ] [Ord κ] [Shown κ] [Stored α] [Shown α]

/-- Carries out a command. -/
def Command.perform : Command α κ → Op (Tree α) (Reply α)
  | .insert value => Reply.slot <$> Tree.insert value
  | .tryInsert value => Reply.slot <$> Tree.tryInsert value
  | .get k => Reply.value? <$> Op.look (·.get? k)
  | .contains k => Reply.flag <$> Op.look (·.contains k)
  | .erase k => Reply.count <$> Tree.erase k
  | .remove k => Reply.value? <$> Tree.remove k
  | .eraseNode link => Reply.value <$> Tree.eraseNode link
  | .clear => do Tree.clear; return .done
  | .iterate calls => Reply.walk <$> Op.look (·.walk calls)
  | .text => Reply.text <$> Op.look Tree.text
  | .renew => do Tree.renewOver (pure ()); return .done
  | .renewOver slots nodes => do Tree.renewOver (occupy slots nodes); return .done
  | .renewFrom values => do Tree.renewFrom values; return .done
  | .ask query => Reply.answer <$> Op.look (·.answer query)

end Containers.Tree
