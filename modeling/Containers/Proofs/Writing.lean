import Containers.Proofs.Outcome
import Containers.Tree.Dot
import Mathlib.Data.String.Basic

/-! Writing the text of a graph to a place that may be full before the text ends. How
the text is cut into pieces makes no difference: to write them one after the other is to
write the text at once, and a write keeps as many whole characters as there is room for.
Any other sink is asked for the pieces in their order too, up to the first one that it
fails for. -/
namespace Containers

open String (utf8Len)

namespace Sink

/-- The longest beginning of a text that has at most so many bytes. -/
structure LongestWithin (room : Nat) (text kept : String) : Prop where
  starts : kept.toList <+: text.toList
  within : kept.utf8ByteSize ≤ room
  longest : ∀ other : String, other.toList <+: text.toList → other.utf8ByteSize ≤ room →
    other.toList <+: kept.toList

/-- What an empty sink with so much room answers to a text, and what it then holds. -/
structure Receives (room : Nat) (text : String) (all : Bool) (held : String) : Prop where
  complete : all = true ↔ text.utf8ByteSize ≤ room
  whole : all = true → held = text
  longest : LongestWithin room text held

/-- The characters that fit are taken from the second text only after the whole first one. -/
theorem takeFitting_append (first second : List Char) (room : Nat) :
    takeFitting (first ++ second) room =
      match takeFitting first room with
      | (taken, left, true) =>
        let (more, behind, all) := takeFitting second left
        (taken ++ more, behind, all)
      | (taken, left, false) => (taken, left, false) := by
  induction first generalizing room with
  | nil => rfl
  | cons c rest ih =>
    simp only [List.cons_append, takeFitting]
    by_cases fits : c.utf8Size ≤ room
    · simp only [if_pos fits, ih]
      rcases takeFitting rest (room - c.utf8Size) with ⟨taken, left, _ | _⟩
      · rfl
      · rfl
    · simp only [if_neg fits]

/-- What is taken is the longest beginning that fits, and it is all if all fits. -/
theorem takeFitting_longest (chars : List Char) (room : Nat) :
    let (taken, _, all) := takeFitting chars room
    taken <+: chars ∧ utf8Len taken ≤ room ∧
      (∀ other, other <+: chars → utf8Len other ≤ room → other <+: taken) ∧
      (all = true ↔ utf8Len chars ≤ room) := by
  induction chars generalizing room with
  | nil =>
    refine ⟨List.nil_prefix, Nat.zero_le _, fun _ starts _ => starts, ?_⟩
    exact iff_of_true rfl (Nat.zero_le _)
  | cons c rest ih =>
    simp only [takeFitting]
    by_cases fits : c.utf8Size ≤ room
    · obtain ⟨starts, within, longest, complete⟩ := ih (room - c.utf8Size)
      simp only [if_pos fits]
      refine ⟨List.cons_prefix_cons.mpr ⟨rfl, starts⟩, ?_, ?_, complete.trans ?_⟩
      · rw [String.utf8Len_cons]
        omega
      · intro other begins short
        cases other with
        | nil => exact List.nil_prefix
        | cons d other =>
          obtain ⟨rfl, behind⟩ := List.cons_prefix_cons.mp begins
          rw [String.utf8Len_cons] at short
          exact List.cons_prefix_cons.mpr ⟨rfl, longest other behind (by omega)⟩
      · rw [String.utf8Len_cons]
        omega
    · simp only [if_neg fits]
      refine ⟨List.nil_prefix, Nat.zero_le _, ?_, iff_of_false nofun ?_⟩
      · intro other begins short
        cases other with
        | nil => exact List.nil_prefix
        | cons d other =>
          obtain ⟨rfl, -⟩ := List.cons_prefix_cons.mp begins
          rw [String.utf8Len_cons] at short
          omega
      · rw [String.utf8Len_cons]
        omega

/-- Two writes one after the other are one write of both texts. -/
theorem write_append (first second : String) :
    (do write first; write second : EStateM Unit Sink Unit) = write (first ++ second) := by
  funext sink
  simp only [bind, EStateM.bind, write, String.toList_append, takeFitting_append]
  rcases takeFitting first.toList sink.room with ⟨taken, left, _ | _⟩
  · rfl
  · simp only [↓reduceIte, String.ofList_append, String.append_assoc]

/-- It does not matter how a text is cut into pieces. -/
theorem forM_write (pieces : List String) : pieces.forM write = write (String.join pieces) := by
  induction pieces with
  | nil =>
    funext sink
    simp [List.forM, pure, EStateM.pure, write, takeFitting]
  | cons piece rest ih =>
    rw [String.join_cons, ← write_append, ← ih]
    rfl

/-- What a write leaves in an empty sink. -/
theorem write_receives (text : String) (room : Nat) :
    Leads (write text) ⟨"", room⟩ (fun _ sink => Receives room text true sink.text)
      fun _ sink => Receives room text false sink.text := by
  have fits := takeFitting_longest text.toList room
  have size : utf8Len text.toList = text.utf8ByteSize := by
    rw [← String.utf8ByteSize_ofList, String.ofList_toList]
  simp only [Leads, write]
  generalize takeFitting text.toList room = kept at fits ⊢
  rcases kept with ⟨taken, left, all⟩
  obtain ⟨starts, within, longest, complete⟩ := fits
  have held : LongestWithin room text (String.ofList taken) := by
    refine ⟨?_, ?_, fun other starts short => ?_⟩
    · rwa [String.toList_ofList]
    · rwa [String.utf8ByteSize_ofList]
    · rw [String.toList_ofList]
      apply longest other.toList starts
      rwa [← String.utf8ByteSize_ofList, String.ofList_toList]
  rw [size] at complete
  cases all with
  | false => exact ⟨complete, fun all => absurd all Bool.false_ne_true, held⟩
  | true =>
    refine ⟨complete, fun _ => ?_, held⟩
    have backwards := held.longest text List.prefix_rfl (complete.mp rfl)
    exact String.toList_inj.mp (held.starts.eq_of_length_le backwards.length_le)

end Sink

section Graph
variable {α κ : Type} [Keyed α κ] [Shown κ]

/-- The pieces of the statement that draws a node. -/
def Node.dotStatement (slot : Nat) (node : Node α) : List String :=
  ["\"n", toString slot, "\" [label=\"", Shown.text (Keyed.key node.value),
    "\"; style=filled; fillcolor=", node.links.color.dotName, "; fontcolor=white];\n"]

/-- The pieces of the statement that draws the edge to a child, if it is there. -/
def Node.dotEdge (slot : Nat) : Link → List String
  | none => []
  | some child => ["\"n", toString slot, "\" -> \"n", toString child, "\";\n"]

namespace Tree

/-- The pieces of the graph's text. -/
def dotPieces (tree : Tree α) : List String :=
  "digraph G \x7b\n" ::
    (tree.nodes.items.toList.zipIdx.flatMap fun (node, slot) =>
      node.dotStatement slot ++ Node.dotEdge slot node.links.left ++ Node.dotEdge slot node.links.right) ++
    ["\x7d\n"]

section Pieces
variable {m : Type → Type} [Monad m] [LawfulMonad m] (write : String → m Unit)

theorem writeEdge_eq (slot : Nat) (link : Link) : writeEdge write slot link = (Node.dotEdge slot link).forM write := by
  cases link with
  | none => rfl
  | some child => simp [writeEdge, Node.dotEdge]

theorem writeNode_eq (slot : Nat) (node : Node α) : writeNode write slot node =
    (node.dotStatement slot ++ Node.dotEdge slot node.links.left ++ Node.dotEdge slot node.links.right).forM write := by
  simp [writeNode, Node.dotStatement, writeEdge_eq]

/-- What the loops over the nodes and their children write are these pieces, one after the other. -/
theorem writeDot_eq_forM (tree : Tree α) : tree.writeDot write = tree.dotPieces.forM write := by
  have nodes : ∀ entries : List (Node α × Nat),
      (entries.forM fun (node, slot) => writeNode write slot node) =
        (entries.flatMap fun (node, slot) =>
          node.dotStatement slot ++ Node.dotEdge slot node.links.left ++
            Node.dotEdge slot node.links.right).forM write := by
    intro entries
    induction entries with
    | nil => rfl
    | cons entry rest ih =>
      simp only [List.forM_eq_forM, writeNode_eq] at ih ⊢
      rw [List.forM_cons, List.flatMap_cons, ih, ← List.forM_append]
  simp [writeDot, dotPieces, nodes]

end Pieces

/-- A text without a limit takes all the pieces. -/
theorem toDot_eq (tree : Tree α) : tree.toDot = String.join tree.dotPieces := by
  have taken : ∀ (pieces : List String) (text : String),
      ((pieces.forM fun piece => modify (· ++ piece) : StateM String Unit) text).2 = text ++ String.join pieces := by
    intro pieces
    induction pieces with
    | nil => exact fun text => String.append_empty.symm
    | cons piece rest ih =>
      intro text
      rw [String.join_cons, ← String.append_assoc, ← ih]
      rfl
  rw [toDot, writeDot_eq_forM, taken, String.empty_append]

end Tree

/-- The graph of a tree is written as its whole text is, and so as any other pieces are
that have this text. -/
theorem Tree.writeDot_eq (tree : Tree α) : tree.writeDot Sink.write = Sink.write tree.toDot := by
  rw [writeDot_eq_forM, Sink.forM_write, toDot_eq]

/-- The writing of a graph ends at the first write that fails. Of a sink with so many bytes
this is said by what it holds, and of any sink by which pieces it was asked to take. -/
theorem Tree.writeDot_stops (tree : Tree α) :
    (∀ room : Nat, let (all, held) := tree.writeDotWithin room
      Sink.Receives room tree.toDot all held) ∧
    (∀ pieces : List String, String.join pieces = tree.toDot →
      pieces.forM Sink.write = tree.writeDot Sink.write) ∧
    ∀ {ε σ : Type} (write : String → EStateM ε σ Unit) (state : σ),
      Leads (tree.writeDot write) state (fun _ _ => True) fun fault after =>
        ∃ (count : Nat) (piece : String) (middle : σ), tree.dotPieces[count]? = some piece ∧
          (tree.dotPieces.take count).forM write state = .ok () middle ∧
          write piece middle = .error fault after := by
  refine ⟨fun room => ?_, fun pieces same => ?_, fun {_ σ} write state => ?_⟩
  · have received := Sink.write_receives tree.toDot room
    simp only [Leads, ← Tree.writeDot_eq] at received
    simp only [writeDotWithin]
    cases ran : tree.writeDot Sink.write ⟨"", room⟩ with
    | ok _ sink => rwa [ran] at received
    | error _ sink => rwa [ran] at received
  · rw [Sink.forM_write, same, Tree.writeDot_eq]
  · -- Nothing is kept along the pieces: only where the writing stops is asked for.
    have each : ∀ (piece : String) (middle : σ) (reference : Unit), reference = () →
        Leads (write piece) middle (fun _ _ => () = ()) fun fault after => write piece middle = .error fault after :=
      fun piece middle _ _ =>
        (Leads.exactly (leads_trivial (write piece))).mono (fun _ _ _ => rfl) fun _ _ ran => ran.1
    rw [writeDot_eq_forM]
    apply (forM_stops (fun _ reference => reference = ()) (fun _ _ => ()) each tree.dotPieces rfl).mono
    · exact fun _ _ _ => trivial
    · rintro fault after ⟨count, piece, middle, found, reached, -, stopped⟩
      exact ⟨count, piece, middle, found, reached, stopped⟩

end Graph

end Containers
