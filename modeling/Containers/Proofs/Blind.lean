import Containers.Map.Command
import Containers.Proofs.Relinking
import Containers.Proofs.Twins

/-! Nothing that a tree does to its links and values sees where the buffer of its nodes
lies or how large it is. -/
namespace Containers

/-- The same tree with its nodes in another buffer. -/
def Tree.onto (engine : Engine) (tree : Tree α) : Tree α :=
  { tree with nodes.engine := engine }

namespace Tree
variable {α κ : Type} (tree : Tree α) (engine : Engine)

theorem outermostFrom_onto (side : Side) (steps slot : Nat) :
    (tree.onto engine).outermostFrom side steps slot = tree.outermostFrom side steps slot := by
  induction steps generalizing slot with
  | zero => rfl
  | succ steps ih =>
    simp only [outermostFrom, ih]
    rfl

theorem outermost_onto (side : Side) (slot : Nat) : (tree.onto engine).outermost side slot = tree.outermost side slot :=
  outermostFrom_onto tree engine side _ slot

theorem extreme_onto (side : Side) : (tree.onto engine).extreme side = tree.extreme side := by
  simp only [extreme, outermost_onto]
  rfl

theorem climb_onto (steps : Nat) (link parent : Link) :
    (tree.onto engine).climb steps link parent = tree.climb steps link parent := by
  induction steps generalizing link parent with
  | zero => rfl
  | succ steps ih =>
    cases parent with
    | none => rfl
    | some slot =>
      simp only [climb, ih]
      rfl

theorem next_onto (link : Link) : (tree.onto engine).next link = tree.next link := by
  simp only [next, climb_onto, outermost_onto]
  rfl

theorem subtreeSizeWithin_onto (depth : Nat) (link : Link) :
    (tree.onto engine).subtreeSizeWithin depth link = tree.subtreeSizeWithin depth link := by
  induction depth generalizing link with
  | zero => cases link <;> rfl
  | succ depth ih =>
    cases link with
    | none => rfl
    | some slot =>
      simp only [subtreeSizeWithin, ih]
      rfl

theorem cursor_onto : (tree.onto engine).cursor = tree.cursor := by
  simp only [cursor, first, extreme_onto]
  rfl

theorem advance_onto (cursor : Cursor) : (tree.onto engine).advance cursor = tree.advance cursor := by
  simp only [advance, next_onto]
  rfl

theorem advanceMany_onto (calls : Nat) (cursor : Cursor) :
    (tree.onto engine).advanceMany calls cursor = tree.advanceMany calls cursor := by
  induction calls generalizing cursor with
  | zero => rfl
  | succ calls ih => simp only [advanceMany, advance_onto, ih]

theorem drainWithin_onto (calls : Nat) (cursor : Cursor) :
    (tree.onto engine).drainWithin calls cursor = tree.drainWithin calls cursor := by
  induction calls generalizing cursor with
  | zero => rfl
  | succ calls ih => simp only [drainWithin, advance_onto, ih]

theorem toList_onto : (tree.onto engine).toList = tree.toList := by
  simp only [toList, cursor_onto, drain, drainWithin_onto]
  rfl

theorem visitsWithin_onto (limit : Nat) (link : Link) (depth : Nat) :
    (tree.onto engine).visitsWithin limit link depth = tree.visitsWithin limit link depth := by
  induction limit generalizing link depth with
  | zero => cases link <;> rfl
  | succ limit ih =>
    cases link with
    | none => rfl
    | some slot =>
      simp only [visitsWithin, ih]
      rfl

section Keys
variable [Keyed α κ] [Ord κ]

theorem locateFrom_onto (k : κ) (steps : Nat) (link parent : Link) (side : Side) :
    (tree.onto engine).locateFrom k steps link parent side = tree.locateFrom k steps link parent side := by
  induction steps generalizing link parent side with
  | zero => rfl
  | succ steps ih =>
    cases link with
    | none => rfl
    | some slot =>
      simp only [locateFrom, ih]
      rfl

theorem locate_onto (k : κ) : (tree.onto engine).locate k = tree.locate k :=
  locateFrom_onto tree engine k _ _ none .right

theorem find?_onto (k : κ) : (tree.onto engine).find? k = tree.find? k := by
  simp only [find?, locate_onto]

theorem get?_onto (k : κ) : (tree.onto engine).get? k = tree.get? k := by
  simp only [get?, find?_onto]
  rfl

theorem contains_onto (k : κ) : (tree.onto engine).contains k = tree.contains k := by
  simp only [contains, find?_onto]

theorem validateWithin_onto (depth : Nat) (link : Link) (lower upper : Option κ) :
    (tree.onto engine).validateWithin depth link lower upper = tree.validateWithin depth link lower upper := by
  induction depth generalizing link lower upper with
  | zero => cases link <;> rfl
  | succ depth ih =>
    cases link with
    | none => rfl
    | some slot =>
      simp only [validateWithin, ih]
      rfl

theorem validate_onto : (tree.onto engine).validate = tree.validate := by
  simp only [validate, validateWithin_onto]
  rfl

/-- No question to a tree is answered by its buffer. -/
theorem answer_onto [Shown κ] [Shown α] (query : Query κ) : (tree.onto engine).answer query = tree.answer query := by
  cases query with
  | find k => simp only [answer, find?_onto]
  | first => simp only [answer, first, extreme_onto]
  | last => simp only [answer, last, extreme_onto]
  | next link => simp only [answer, next_onto]
  | subtreeSize link =>
    simp only [answer, subtreeSize, subtreeSizeWithin_onto]
    rfl
  | validate => simp only [answer, validate_onto]
  | traverse =>
    simp only [answer, traverse, visitsWithin_onto]
    rfl
  | root | value _ | node _ | isEmpty | toDot | writeDot _ => rfl

theorem walk_onto (calls : Nat) : (tree.onto engine).walk calls = tree.walk calls := by
  simp only [walk, cursor_onto, advanceMany_onto, drain, drainWithin_onto, toList_onto]
  rfl

end Keys

end Tree

namespace Relink
variable {α β γ : Type} {engine : Engine}

theorem blind_look {question : Tree α → Except Fault β}
    (same : ∀ tree, question (tree.onto engine) = question tree) :
    Blind (Tree.onto engine) (look question).run := by
  intro tree
  simp only [Leads, look, run, same]
  cases question tree with
  | ok answer => rfl
  | error fault => rfl

theorem blind_done (answer : β) : Blind (Tree.onto engine) (pure answer : Relink α β).run :=
  blind_pure answer

theorem blind_then {op : Relink α β} {next : β → Relink α γ} (first : Blind (Tree.onto engine) op.run)
    (rest : ∀ answer, Blind (Tree.onto engine) (next answer).run) : Blind (Tree.onto engine) (op >>= next).run := by
  rw [run_bind]
  exact blind_bind first rest

/-- Reading goes on from the same tree. -/
theorem blind_reading {question : Tree α → Except Fault β} {next : β → Relink α γ}
    (same : ∀ tree, question (tree.onto engine) = question tree)
    (rest : ∀ answer, Blind (Tree.onto engine) (next answer).run) :
    Blind (Tree.onto engine) (look question >>= next).run :=
  blind_then (blind_look same) rest

/-- What is read of the tree as it stands does not show the buffer. -/
theorem blind_current {next : Tree α → Relink α β} (same : ∀ tree, next (tree.onto engine) = next tree)
    (rest : ∀ tree, Blind (Tree.onto engine) (next tree).run) : Blind (Tree.onto engine) (current >>= next).run := by
  intro tree
  refine (rest tree tree).mono (fun answer after ran => ?_) fun fault after ran => ?_
  · exact (congrFun (congrArg run (same tree)) _).trans ran
  · exact (congrFun (congrArg run (same tree)) _).trans ran

/-- A write does the same in any buffer. -/
theorem enact_onto (engine : Engine) (tree : Tree α) (edit : Edit) :
    (tree.onto engine).enact edit = (tree.enact edit).map (Tree.onto engine) := by
  have amend : ∀ link (f : Links → Links), (tree.onto engine).amend link f =
      (tree.amend link f).map (Tree.onto engine) := by
    intro link f
    cases link with
    | none => rfl
    | some slot =>
      unfold Tree.amend
      cases found : tree.nodes.items[slot]? with
      | none => simp only [Tree.onto, found, Except.map]
      | some node => simp only [Tree.onto, found, Except.map]
  cases edit with
  | child side link child => exact amend link _
  | parent link parent => exact amend link (Links.withParent parent)
  | color link dye => exact amend link (Links.withColor dye)
  | values a b =>
    have nodeAt : ∀ slot, (tree.onto engine).nodeAt slot = tree.nodeAt slot := fun _ => rfl
    simp only [Tree.enact, Tree.exchange, nodeAt]
    cases tree.nodeAt a with
    | error fault => rfl
    | ok first => cases tree.nodeAt b <;> rfl
  | root _ | rest | rotation _ _ => rfl

/-- A write does the same in any buffer, so it stays in this one. -/
theorem engine_enact {tree after : Tree α} {edit : Edit} (enacted : tree.enact edit = .ok after) :
    after.nodes.engine = tree.nodes.engine := by
  have same : tree.enact edit = (tree.enact edit).map (Tree.onto tree.nodes.engine) :=
    enact_onto tree.nodes.engine tree edit
  rw [enacted] at same
  exact congrArg (fun tree => tree.nodes.engine) (Except.ok.inj same)

theorem blind_step (edit : Edit) : Blind (Tree.onto engine) (step edit : Relink α Unit).run := by
  intro tree
  simp only [Leads, step, run, enact_onto]
  cases tree.enact edit with
  | ok after => rfl
  | error fault => rfl

/-- After a write the change goes on from the same tree. -/
theorem blind_writing {edit : Edit} {next : Unit → Relink α β} (rest : Blind (Tree.onto engine) (next ()).run) :
    Blind (Tree.onto engine) (step edit >>= next).run :=
  blind_then (blind_step edit) fun _ => rest

theorem blind_redirect (parent old new : Link) :
    Blind (Tree.onto engine) (redirect parent old new : Relink α Unit).run := by
  unfold redirect
  split
  · exact blind_step _
  · refine blind_reading (fun _ => rfl) fun child => ?_
    split
    · exact blind_step _
    · exact blind_step _

theorem blind_entrust (link parent : Link) : Blind (Tree.onto engine) (entrust link parent : Relink α Unit).run := by
  unfold entrust
  split
  · exact blind_done ()
  · exact blind_step _

theorem blind_rotate (side : Side) (link : Link) : Blind (Tree.onto engine) (rotate side link : Relink α Unit).run := by
  unfold rotate
  apply blind_writing
  refine blind_reading (fun _ => rfl) fun lifted => ?_
  refine blind_reading (fun _ => rfl) fun inner => ?_
  apply blind_writing
  refine blind_then (blind_entrust inner link) fun _ => ?_
  refine blind_reading (fun _ => rfl) fun parent => ?_
  apply blind_writing
  refine blind_then (blind_redirect parent link lifted) fun _ => ?_
  exact blind_writing (blind_step _)

theorem blind_straighten (side : Side) (link parent : Link) :
    Blind (Tree.onto engine) (repairRedStep.straighten side link parent : Relink α Link).run := by
  unfold repairRedStep.straighten
  refine blind_reading (fun _ => rfl) fun child => ?_
  split
  · exact blind_then (blind_rotate side parent) fun _ => blind_done _
  · exact blind_done _

theorem blind_repairRedStep (link : Link) : Blind (Tree.onto engine) (repairRedStep link : Relink α Link).run := by
  unfold repairRedStep
  refine blind_reading (fun _ => rfl) fun parent => ?_
  refine blind_reading (fun _ => rfl) fun grandparent => ?_
  refine blind_reading (fun _ => rfl) fun child => ?_
  refine blind_reading (fun _ => rfl) fun uncle => ?_
  refine blind_reading (fun _ => rfl) fun color => ?_
  split
  · apply blind_writing
    apply blind_writing
    exact blind_writing (blind_done _)
  · refine blind_then (blind_straighten _ link parent) fun straightened => ?_
    refine blind_reading (fun _ => rfl) fun parent => ?_
    refine blind_reading (fun _ => rfl) fun grandparent => ?_
    apply blind_writing
    apply blind_writing
    exact blind_then (blind_rotate _ grandparent) fun _ => blind_done _

theorem blind_repairRedFrom (rounds : Nat) (link : Link) :
    Blind (Tree.onto engine) (repairRedFrom rounds link : Relink α Unit).run := by
  induction rounds generalizing link with
  | zero => exact blind_throw _
  | succ rounds ih =>
    unfold repairRedFrom
    refine blind_reading (fun _ => rfl) fun parent => ?_
    refine blind_reading (fun _ => rfl) fun color => ?_
    split
    · exact blind_then (blind_repairRedStep link) fun _ => ih _
    · exact blind_done _

theorem blind_repairRed (link : Link) : Blind (Tree.onto engine) (repairRed link : Relink α Unit).run := by
  unfold repairRed
  refine blind_current (fun _ => rfl) fun tree => ?_
  refine blind_then (blind_repairRedFrom _ link) fun _ => ?_
  exact blind_current (fun _ => rfl) fun tree => blind_step _

theorem blind_hang (link parent : Link) (side : Side) :
    Blind (Tree.onto engine) (hang link parent side : Relink α Unit).run := by
  unfold hang
  split
  · exact blind_step _
  · exact blind_step _

theorem blind_blackSibling (side : Side) (link parent : Link) :
    Blind (Tree.onto engine) (blackSibling side link parent : Relink α Link).run := by
  unfold blackSibling
  refine blind_reading (fun _ => rfl) fun sibling => ?_
  refine blind_reading (fun _ => rfl) fun color => ?_
  split
  · apply blind_writing
    apply blind_writing
    refine blind_then (blind_rotate side parent) fun _ => ?_
    refine blind_reading (fun _ => rfl) fun above => ?_
    exact blind_look fun _ => rfl
  · exact blind_done _

theorem blind_childrenBlack (link : Link) : Blind (Tree.onto engine) (childrenBlack link : Relink α Bool).run := by
  unfold childrenBlack
  refine blind_reading (fun _ => rfl) fun left => ?_
  refine blind_reading (fun _ => rfl) fun color => ?_
  split
  · refine blind_reading (fun _ => rfl) fun right => ?_
    exact blind_reading (fun _ => rfl) fun _ => blind_done _
  · exact blind_done _

theorem blind_redOuterChild (side : Side) (link sibling : Link) :
    Blind (Tree.onto engine) (redOuterChild side link sibling : Relink α Link).run := by
  unfold redOuterChild
  refine blind_reading (fun _ => rfl) fun outer => ?_
  refine blind_reading (fun _ => rfl) fun color => ?_
  split
  · refine blind_reading (fun _ => rfl) fun inner => ?_
    apply blind_writing
    apply blind_writing
    refine blind_then (blind_rotate _ sibling) fun _ => ?_
    refine blind_reading (fun _ => rfl) fun above => ?_
    exact blind_look fun _ => rfl
  · exact blind_done _

theorem blind_repairShortStep (link : Link) :
    Blind (Tree.onto engine) (repairShortStep link : Relink α Link).run := by
  unfold repairShortStep
  refine blind_reading (fun _ => rfl) fun parent => ?_
  refine blind_reading (fun _ => rfl) fun child => ?_
  refine blind_then (blind_blackSibling _ link parent) fun blackened => ?_
  refine blind_then (blind_childrenBlack _) fun bothBlack => ?_
  split
  · apply blind_writing
    exact blind_look fun _ => rfl
  · refine blind_then (blind_redOuterChild _ link _) fun reddened => ?_
    refine blind_reading (fun _ => rfl) fun parent => ?_
    refine blind_reading (fun _ => rfl) fun outer => ?_
    refine blind_reading (fun _ => rfl) fun color => ?_
    apply blind_writing
    apply blind_writing
    apply blind_writing
    refine blind_then (blind_rotate _ parent) fun _ => ?_
    exact blind_current (fun _ => rfl) fun _ => blind_done _

theorem blind_repairShortFrom (rounds : Nat) (link : Link) :
    Blind (Tree.onto engine) (repairShortFrom rounds link : Relink α Link).run := by
  induction rounds generalizing link with
  | zero => exact blind_throw _
  | succ rounds ih =>
    unfold repairShortFrom
    refine blind_current (fun _ => rfl) fun tree => ?_
    refine blind_reading (fun _ => rfl) fun color => ?_
    split
    · exact blind_then (blind_repairShortStep link) fun _ => ih _
    · exact blind_done _

theorem blind_repairShort (link : Link) : Blind (Tree.onto engine) (repairShort link : Relink α Unit).run := by
  unfold repairShort
  refine blind_current (fun _ => rfl) fun tree => ?_
  exact blind_then (blind_repairShortFrom _ link) fun last => blind_step _

theorem blind_departing (slot : Nat) : Blind (Tree.onto engine) (departing slot : Relink α Nat).run := by
  unfold departing
  refine blind_reading (fun _ => rfl) fun left => ?_
  refine blind_reading (fun _ => rfl) fun right => ?_
  split
  · exact blind_look fun tree => tree.outermost_onto engine .left _
  · exact blind_done slot

theorem blind_onlyChild (slot : Nat) : Blind (Tree.onto engine) (onlyChild slot : Relink α Link).run := by
  unfold onlyChild
  refine blind_reading (fun _ => rfl) fun left => ?_
  split
  · exact blind_done left
  · exact blind_look fun _ => rfl

theorem blind_bypass (slot : Nat) : Blind (Tree.onto engine) (bypass slot : Relink α Link).run := by
  unfold bypass
  refine blind_then (blind_onlyChild slot) fun orphan => ?_
  refine blind_reading (fun _ => rfl) fun parent => ?_
  apply blind_writing
  exact blind_then (blind_redirect parent _ orphan) fun _ => blind_done orphan

theorem blind_mend (gone : Nat) (orphan : Link) : Blind (Tree.onto engine) (mend gone orphan : Relink α Unit).run := by
  unfold mend
  refine blind_reading (fun _ => rfl) fun color => ?_
  split
  · exact blind_then (blind_repairShort orphan) fun _ => blind_step _
  · exact blind_step _

theorem blind_unlink (slot : Nat) : Blind (Tree.onto engine) (unlink slot : Relink α Nat).run := by
  have finish : ∀ gone orphan, Blind (Tree.onto engine) (do mend gone orphan; return gone : Relink α Nat).run :=
    fun gone orphan => blind_then (blind_mend gone orphan) fun _ => blind_done gone
  unfold unlink
  refine blind_then (blind_departing slot) fun gone => ?_
  refine blind_then (blind_bypass gone) fun orphan => ?_
  split
  · exact blind_writing (finish gone orphan)
  · exact finish gone orphan

theorem blind_adopt (slot old : Nat) : Blind (Tree.onto engine) (adopt slot old : Relink α Unit).run := by
  unfold adopt
  refine blind_reading (fun _ => rfl) fun links => ?_
  refine blind_then (blind_redirect links.parent _ _) fun _ => ?_
  refine blind_then (blind_entrust links.left _) fun _ => ?_
  exact blind_entrust links.right _

end Relink

end Containers
