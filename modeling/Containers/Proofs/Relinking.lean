import Containers.Proofs.Arena

/-! Reading and changing the links of a tree whose records spell out a shape.
The record functions of the arena stand for the tree's slots here: every access
to a slot that exists succeeds, and every change touches one record only. What
a change writes is read off its text, one write after another: the sentinel may
be told a parent for a while, but must not be painted red or given a child. -/
namespace Containers

namespace Tree
variable {α : Type} {tree before middle after : Tree α} {link : Link} {slot : Nat}

/-- The values by slot. -/
def values (tree : Tree α) : Array α :=
  tree.nodes.items.map Node.value

/-- What is recorded behind a link; a slot that does not exist reads like the
sentinel at rest. -/
def record (tree : Tree α) : Records
  | none => tree.sentinel
  | some slot => ((tree.nodes.items[slot]?).map Node.links).getD .sentinel

/-- The link is the sentinel's or that of an existing slot. -/
def Live (tree : Tree α) (link : Link) : Prop :=
  ∀ slot, link = some slot → slot < tree.size

/-- Nothing but links and colours of nodes changed. -/
structure Kept (before after : Tree α) : Prop where
  engine : after.nodes.engine = before.nodes.engine
  values : after.values = before.values
  sentinel : after.sentinel = before.sentinel

theorem size_values (tree : Tree α) : tree.values.size = tree.size := Array.size_map ..

theorem exists_node (live : slot < tree.size) : ∃ node, tree.nodes.items[slot]? = some node :=
  ⟨_, Array.getElem?_eq_getElem live⟩

theorem record_eq {node : Node α} (found : tree.nodes.items[slot]? = some node) :
    tree.record (some slot) = node.links := by
  simp only [record, found, Option.map_some, Option.getD_some]

/-- A tree is its buffer, its values, its records and its root. -/
theorem ext_record {other : Tree α} (engine : other.nodes.engine = tree.nodes.engine)
    (values : other.values = tree.values) (record : other.record = tree.record) (root : other.root = tree.root) :
    other = tree := by
  have nodes : other.nodes.items = tree.nodes.items := by
    apply Array.ext_getElem?
    intro slot
    have value := congrArg (·[slot]?) values
    have links := congrFun record (some slot)
    simp only [Tree.values, Array.getElem?_map, Tree.record] at value links
    cases found : tree.nodes.items[slot]? with
    | none =>
      rw [found, Option.map_none, Option.map_eq_none_iff] at value
      exact value
    | some node =>
      rw [found, Option.map_some, Option.map_eq_some_iff] at value
      obtain ⟨node', found', sameValue⟩ := value
      rw [found, found'] at links
      rw [found']
      obtain ⟨links', value'⟩ := node'
      cases links
      cases sameValue
      rfl
  have sentinel : other.sentinel = tree.sentinel := congrFun record none
  obtain ⟨⟨engine', items'⟩, sentinel', root'⟩ := other
  cases engine
  cases nodes
  cases sentinel
  cases root
  rfl

theorem Kept.size (kept : before.Kept after) : after.size = before.size := by
  rw [← size_values, kept.values, size_values]

theorem Kept.refl (tree : Tree α) : tree.Kept tree := ⟨rfl, rfl, rfl⟩

theorem Kept.trans (first : before.Kept middle) (second : middle.Kept after) :
    before.Kept after :=
  ⟨second.engine.trans first.engine, second.values.trans first.values,
    second.sentinel.trans first.sentinel⟩

theorem links_eq (live : tree.Live link) : tree.links link = .ok (tree.record link) := by
  cases link with
  | none => rfl
  | some slot =>
    obtain ⟨node, found⟩ := exists_node (live slot rfl)
    simp only [links, nodeAt, record, found]
    rfl

theorem child_eq (live : tree.Live link) (side : Side) :
    tree.child side link = .ok ((tree.record link).child side) := by
  rw [child, links_eq live]; rfl

theorem parent_eq (live : tree.Live link) : tree.parent link = .ok (tree.record link).parent := by
  rw [parent, links_eq live]; rfl

theorem color_eq (live : tree.Live link) : tree.color link = .ok (tree.record link).color := by
  rw [color, links_eq live]; rfl

end Tree

namespace Edit

/-- The write does not paint the sentinel red, and gives it no child. -/
def Harmless : Edit → Prop
  | .child _ link _ => link ≠ none
  | .color link dye => link = none → dye = .black
  | _ => True

/-- The note that a rotation begins. -/
def isRotation : Edit → Bool
  | .rotation _ _ => true
  | _ => false

/-- How many rotations begin among these writes. -/
def rotations (edits : List Edit) : Nat :=
  edits.countP isRotation

theorem rotations_append (first second : List Edit) :
    rotations (first ++ second) = rotations first + rotations second := List.countP_append

end Edit

/-- The record of a sentinel that may name a parent. -/
structure Links.Calm (links : Links) : Prop where
  black : links.color = .black
  left : links.left = none
  right : links.right = none

/-- The sentinel is black and has no child. -/
abbrev Tree.Calm (tree : Tree α) : Prop := tree.sentinel.Calm

namespace Tree
variable {α : Type} {tree before after : Tree α} {edit : Edit}

theorem Kept.calm (kept : before.Kept after) (calm : before.Calm) : after.Calm := by
  rw [Calm, kept.sentinel]
  exact calm

theorem calm_amend {link : Link} {f : Links → Links} (calm : tree.Calm) (amended : tree.amend link f = .ok after)
    (harmless : link = none → (f tree.sentinel).Calm) : after.Calm := by
  unfold Tree.amend at amended
  split at amended
  · cases amended
    exact harmless rfl
  · split at amended
    · cases amended
    · cases amended
      exact calm

/-- Harmless writes leave the sentinel calm. -/
theorem calm_enact (calm : tree.Calm) (harmless : edit.Harmless) (enacted : tree.enact edit = .ok after) :
    after.Calm := by
  cases edit with
  | child side link child => exact calm_amend calm enacted fun missing => absurd missing harmless
  | parent link parent =>
    exact calm_amend (f := Links.withParent parent) calm enacted fun _ => ⟨calm.black, calm.left, calm.right⟩
  | color link dye =>
    exact calm_amend (f := Links.withColor dye) calm enacted fun missing =>
      ⟨harmless missing, calm.left, calm.right⟩
  | values a b =>
    simp only [Tree.enact, Tree.exchange, bind, Except.bind] at enacted
    split at enacted
    · cases enacted
    · split at enacted
      · cases enacted
      · cases enacted
        exact calm
  | rest =>
    cases enacted
    exact ⟨rfl, rfl, rfl⟩
  | root _ | rotation _ _ =>
    cases enacted
    exact ⟨calm.black, calm.left, calm.right⟩

/-- So does a whole row of them. -/
theorem calm_foldlM {edits : List Edit} (calm : tree.Calm) (harmless : ∀ edit ∈ edits, edit.Harmless)
    (enacted : edits.foldlM Tree.enact tree = .ok after) : after.Calm := by
  induction edits generalizing tree with
  | nil =>
    cases enacted
    exact calm
  | cons edit rest ih =>
    rw [List.foldlM_cons] at enacted
    cases first : tree.enact edit with
    | ok middle =>
      rw [first] at enacted
      have next : middle.Calm := calm_enact calm (harmless edit List.mem_cons_self) first
      exact ih next (fun other member => harmless other (List.mem_cons_of_mem _ member)) enacted
    | error fault =>
      rw [first] at enacted
      cases enacted

end Tree

namespace Relink
variable {α β γ : Type} {tree middle after : Tree α} {op : Relink α β} {next : β → Relink α γ} {answer : β}

/-- What a change writes from a tree on, in this order, up to a read or write that fails. -/
def trace : Relink α β → Tree α → List Edit
  | done _, _ => []
  | fail _, _ => []
  | read next, tree => (next tree).trace tree
  | write edit rest, tree =>
    match tree.enact edit with
    | .ok after => edit :: rest.trace after
    | .error _ => []

theorem run_bind (op : Relink α β) (next : β → Relink α γ) :
    (op >>= next).run = op.run >>= fun answer => (next answer).run := by
  induction op with
  | done answer => rfl
  | fail fault => rfl
  | read step ih =>
    funext tree
    exact congrFun (ih tree) tree
  | write edit rest ih =>
    funext tree
    change (write edit (rest >>= next)).run tree = EStateM.bind (write edit rest).run (fun b => (next b).run) tree
    simp only [EStateM.bind, run]
    cases tree.enact edit with
    | ok after => exact congrFun ih after
    | error fault => rfl

theorem run_bind_of_ok (ran : op.run tree = .ok answer middle) :
    (op >>= next).run tree = (next answer).run middle := by
  rw [run_bind]
  simp only [Bind.bind, EStateM.bind, ran]

/-- Where both parts succeed, the second one goes on from what the first one left. -/
theorem exists_of_run_bind {last : γ} (ran : (op >>= next).run tree = .ok last after) :
    ∃ answer middle, op.run tree = .ok answer middle ∧ (next answer).run middle = .ok last after := by
  rw [run_bind] at ran
  simp only [Bind.bind, EStateM.bind] at ran
  split at ran
  · exact ⟨_, _, ‹_›, ran⟩
  · cases ran

/-- The second part goes on writing where the first one ended. -/
theorem trace_bind (ran : op.run tree = .ok answer middle) :
    (op >>= next).trace tree = op.trace tree ++ (next answer).trace middle := by
  induction op generalizing tree with
  | done _ =>
    cases ran
    rfl
  | fail _ => cases ran
  | read step ih => exact ih tree ran
  | write edit rest ih =>
    change (match tree.enact edit with
      | .ok after => edit :: (rest >>= next).trace after
      | .error _ => []) = _
    simp only [run, trace] at ran ⊢
    cases enacted : tree.enact edit with
    | ok after =>
      rw [enacted] at ran
      exact congrArg (edit :: ·) (ih ran)
    | error fault =>
      rw [enacted] at ran
      cases ran

theorem trace_current_then {next : Tree α → Relink α β} : (current >>= next).trace tree = (next tree).trace tree :=
  rfl

/-- A read writes nothing. -/
theorem trace_look_then {question : Tree α → Except Fault β} (rest : ∀ b, (next b).trace tree = []) :
    (look question >>= next).trace tree = [] := by
  change Relink.trace (Relink.bind _ next) tree = []
  simp only [look, bind, trace]
  split
  · exact rest _
  · rfl

/-- The change goes through this tree: a beginning of what it writes leads there. -/
def Passes (op : Relink α β) (tree middle : Tree α) : Prop :=
  ∃ front, front <+: op.trace tree ∧ front.foldlM Tree.enact tree = .ok middle

/-- What is written is all that a change does to a tree. -/
theorem foldlM_trace (ran : op.run tree = .ok answer after) :
    (op.trace tree).foldlM Tree.enact tree = .ok after := by
  induction op generalizing tree with
  | done _ =>
    cases ran
    rfl
  | fail _ => cases ran
  | read step ih => exact ih tree ran
  | write edit rest ih =>
    simp only [run, trace] at ran ⊢
    cases enacted : tree.enact edit with
    | ok middle =>
      rw [enacted] at ran
      rw [List.foldlM_cons, enacted]
      exact ih ran
    | error fault =>
      rw [enacted] at ran
      cases ran

theorem passes_last (ran : op.run tree = .ok answer after) : op.Passes tree after :=
  ⟨op.trace tree, List.prefix_rfl, foldlM_trace ran⟩

instance : LawfulMonad (Relink α) := by
  refine LawfulMonad.mk' (Relink α) ?_ ?_ ?_
  · intro β op
    induction op with
    | done _ => rfl
    | fail _ => rfl
    | read step ih => exact congrArg read (funext ih)
    | write edit rest ih => exact congrArg (write edit) ih
  · intro β γ answer next
    rfl
  · intro β γ δ op next last
    induction op with
    | done _ => rfl
    | fail _ => rfl
    | read step ih => exact congrArg read (funext ih)
    | write edit rest ih => exact congrArg (write edit) ih

/-- From this tree the change cannot fail, all that it writes is harmless, and the condition
holds of its answer, of the tree that it leaves and of the number of its rotations. -/
structure Safe (op : Relink α β) (tree : Tree α) (holds : β → Tree α → Nat → Prop) : Prop where
  harmless : ∀ edit ∈ op.trace tree, edit.Harmless
  sure : Sure op.run tree fun answer after => holds answer after (Edit.rotations (op.trace tree))

/-- A change without a rotation. -/
abbrev Still (op : Relink α β) (tree : Tree α) (holds : β → Tree α → Prop) : Prop :=
  Safe op tree fun answer after turns => turns = 0 ∧ holds answer after

section Rules
variable {holds : β → Tree α → Nat → Prop} {ends : γ → Tree α → Nat → Prop} {left : β → Tree α → Prop}

theorem Safe.weaken {holds' : β → Tree α → Nat → Prop} (safe : Safe op tree holds)
    (finish : ∀ answer after turns, holds answer after turns → holds' answer after turns) : Safe op tree holds' :=
  ⟨safe.harmless, safe.sure.weaken fun answer after held => finish answer after _ held⟩

/-- Without its rotations, as a computation on the tree. -/
theorem Safe.runs (safe : Safe op tree holds) : Sure op.run tree fun answer after => ∃ turns, holds answer after turns :=
  safe.sure.weaken fun _ _ held => ⟨_, held⟩

theorem Still.runs (still : Still op tree left) : Sure op.run tree left :=
  still.sure.weaken fun _ _ held => held.2

/-- The sentinel is calm all along a change that is safe. -/
theorem Safe.calm (safe : Safe op tree holds) (calm : tree.Calm) (passes : op.Passes tree middle) : middle.Calm := by
  obtain ⟨front, written, enacted⟩ := passes
  exact Tree.calm_foldlM calm (fun edit member => safe.harmless edit (written.subset member)) enacted

theorem Safe.pure (held : holds answer tree 0) : Safe (pure answer) tree holds :=
  ⟨nofun, held⟩

/-- The rotations of both parts add up. -/
theorem Safe.andCount (first : Safe op tree holds)
    (rest : ∀ answer after turns, holds answer after turns →
      Safe (next answer) after fun answer' after' more => ends answer' after' (turns + more)) :
    Safe (op >>= next) tree ends := by
  obtain ⟨answer, middle, ran, held⟩ := first.sure.answers
  obtain ⟨harmless, sure⟩ := rest answer middle _ held
  constructor
  · intro edit written
    rw [trace_bind ran, List.mem_append] at written
    exact written.elim (first.harmless edit) (harmless edit)
  · rw [run_bind, trace_bind ran, Edit.rotations_append]
    apply (sure_of_ok ran).andThen
    rintro _ _ ⟨rfl, rfl⟩
    exact sure

/-- The rest makes all the rotations. -/
theorem Safe.andThen (first : Still op tree left)
    (rest : ∀ answer after, left answer after → Safe (next answer) after ends) : Safe (op >>= next) tree ends := by
  apply first.andCount
  rintro answer after _ ⟨rfl, held⟩
  simpa only [Nat.zero_add] using rest answer after held

/-- What is read is part of the tree that the change goes on from. -/
theorem Safe.read {step : Tree α → Relink α β} (rest : Safe (step tree) tree holds) : Safe (read step) tree holds :=
  ⟨rest.harmless, rest.sure⟩

theorem Safe.look {question : Tree α → Except Fault β} {b : β} (reading : question tree = .ok b)
    (held : holds b tree 0) : Safe (look question) tree holds := by
  apply Safe.read
  simp only [reading]
  exact .pure held

/-- A read that succeeds goes on with what it read. -/
theorem look_then {question : Tree α → Except Fault β} {b : β} (reading : question tree = .ok b)
    (rest : Safe (next b) tree ends) : Safe (look question >>= next) tree ends := by
  have still : Still (look question) tree fun answer after => answer = b ∧ after = tree :=
    .look reading ⟨rfl, rfl, rfl⟩
  apply still.andThen
  rintro _ _ ⟨rfl, rfl⟩
  exact rest

/-- The tree as it stands goes on as it is. -/
theorem current_then {next : Tree α → Relink α γ} (rest : Safe (next tree) tree ends) :
    Safe (current >>= next) tree ends :=
  .read rest

end Rules

section Writes
variable {link parent : Link} {side : Side} {edit : Edit}

/-- A write to a slot that exists. -/
theorem step_safe {holds : Unit → Tree α → Nat → Prop} (enacted : tree.enact edit = .ok after)
    (harmless : edit.Harmless) (held : holds () after (Edit.rotations [edit])) : Safe (step edit) tree holds := by
  have isTrace : (step edit).trace tree = [edit] := by simp only [step, trace, enacted]
  have ran : (step edit).run tree = .ok () after := by simp only [step, run, enacted]
  constructor
  · intro other written
    rw [isTrace, List.mem_singleton] at written
    rwa [written]
  · simp only [isTrace, Leads, ran]
    exact held

/-- What a change of one record leaves. -/
structure Changed (before : Tree α) (records : Records) (root : Link) (after : Tree α) : Prop where
  record : after.record = records
  root : after.root = root
  engine : after.nodes.engine = before.nodes.engine
  values : after.values = before.values

/-- Only the record behind the link changes. -/
theorem amend_eq (live : tree.Live link) (f : Links → Links) :
    ∃ after, tree.amend link f = .ok after ∧ Changed tree (tree.record.change link f) tree.root after := by
  cases link with
  | none =>
    refine ⟨_, rfl, funext fun other => ?_, rfl, rfl, rfl⟩
    cases other <;> rfl
  | some slot =>
    have bound : slot < tree.nodes.items.size := live slot rfl
    have exists_node := Array.getElem?_eq_getElem bound
    simp only [Tree.amend, exists_node]
    refine ⟨_, rfl, funext fun other => ?_, rfl, rfl, ?_⟩
    · cases other with
      | none => rfl
      | some other =>
        by_cases same : other = slot
        · subst same
          simp [Tree.record, Records.change, exists_node, Array.getElem?_setIfInBounds_self_of_lt bound]
        · simp [Tree.record, Records.change, same, Array.getElem?_setIfInBounds_ne (Ne.symm same)]
    · apply Array.ext_getElem?
      intro other
      by_cases same : other = slot
      · subst same
        simp [Tree.values, bound]
      · simp [Tree.values, Array.getElem?_setIfInBounds_ne (Ne.symm same)]

theorem setChild_still (live : tree.Live link) (node : link ≠ none) (side : Side) (child : Link) :
    Still (setChild side link child) tree fun _ after =>
      Changed tree (tree.record.change link (Links.withChild side child)) tree.root after := by
  obtain ⟨after, amended, changed⟩ := amend_eq live (Links.withChild side child)
  exact step_safe amended node ⟨rfl, changed⟩

theorem setParent_still (live : tree.Live link) (parent : Link) :
    Still (setParent link parent) tree fun _ after =>
      Changed tree (tree.record.change link (Links.withParent parent)) tree.root after := by
  obtain ⟨after, amended, changed⟩ := amend_eq live (Links.withParent parent)
  exact step_safe amended trivial ⟨rfl, changed⟩

theorem setRoot_still : Still (setRoot link) tree fun _ after => Changed tree tree.record link after :=
  step_safe rfl trivial ⟨rfl, funext fun other => by cases other <;> rfl, rfl, rfl, rfl⟩

theorem entrust_still (live : tree.Live link) (parent : Link) :
    Still (entrust link parent) tree fun _ after =>
      Changed tree (tree.record.entrust link parent) tree.root after := by
  unfold entrust Records.entrust
  split
  · exact .pure ⟨rfl, rfl, rfl, rfl, rfl⟩
  · exact setParent_still live parent

theorem rotations_setColor {dye : Color} : Edit.rotations ((setColor link dye).trace tree) = 0 := by
  unfold setColor step trace
  split <;> rfl

/-- A rotation is counted where it begins. -/
theorem rotation_then {holds : β → Tree α → Nat → Prop} {rest : Unit → Relink α β}
    (turned : Safe (rest ()) tree fun answer after more => holds answer after (1 + more)) :
    Safe (step (.rotation side link) >>= rest) tree holds := by
  have noted : Safe (step (.rotation side link)) tree fun _ after turns => turns = 1 ∧ after = tree :=
    step_safe rfl trivial ⟨rfl, rfl⟩
  apply noted.andCount
  rintro _ _ _ ⟨rfl, rfl⟩
  exact turned

end Writes

end Relink

end Containers
