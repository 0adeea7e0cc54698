import Containers.Proofs.Insertion
import Containers.Proofs.Loops
import Containers.Proofs.Unlinking

/-! The repairs come to an end. A round starts only where the last one did not end the trouble,
and then the trouble is nearer to the root than it was a round before. So the rounds need no
limit; those that rotate are the last ones, which bounds the rotations. -/
namespace Containers

namespace Tree
variable {α : Type}

/-- A red-black tree, whatever its values are, with the sentinel at rest. -/
structure RedBlack (tree : Tree α) (shape : Shape) : Prop where
  linked : tree.Linked shape
  sentinel : tree.sentinel = .sentinel
  black : shape.color = .black
  balanced : ∃ rank, shape.Balanced rank

theorem RedBlack.calm {tree : Tree α} {shape : Shape} (valid : tree.RedBlack shape) : tree.Calm := by
  rw [Calm, valid.sentinel]
  exact ⟨rfl, rfl, rfl⟩

/-- A place where a node can be hung: the root if there is none, or a side of a node on which it
has no child. -/
inductive Vacant (tree : Tree α) (shape : Shape) : Link → Side → Prop
  | root (side : Side) (empty : tree.root = none) : Vacant tree shape none side
  | below {slot : Nat} {side : Side} (inside : slot ∈ shape.slots)
      (missing : tree.child side (some slot) = .ok none) : Vacant tree shape (some slot) side

end Tree

namespace Relink
variable {α : Type}

/-- The repair after an insertion goes on as long as the parent is red. -/
def redLoop : Loop α where
  test link := do
    let parent ← look (·.parent link)
    return (← look (·.color parent)) = .red
  round := repairRedStep
  finish _ := do setColor (← current).root .black
  silent _ _ := trace_look_then fun _ => trace_look_then fun _ => rfl
  still _ _ := trace_current_then ▸ rotations_setColor

/-- The repair after a removal goes on as long as the node is black and not the root. -/
def shortLoop : Loop α where
  test link := do
    let tree ← current
    return link ≠ tree.root ∧ (← look (·.color link)) = .black
  round := repairShortStep
  finish link := setColor link .black
  silent _ _ := trace_current_then.trans (trace_look_then fun _ => rfl)
  still _ _ := rotations_setColor

theorem repairRedFrom_eq (rounds : Nat) (link : Link) :
    (repairRedFrom rounds link : Relink α Unit) = (fun _ => ()) <$> redLoop.run rounds link := by
  induction rounds generalizing link with
  | zero => rfl
  | succ rounds ih =>
    simp only [repairRedFrom, Loop.run, redLoop, ih, bind_assoc, pure_bind, map_bind, decide_eq_true_eq,
      apply_ite (Functor.map fun _ => ()), map_pure]

theorem repairRed_eq : (repairRed : Link → Relink α Unit) = redLoop.repair := by
  funext link
  simp only [repairRed, Loop.repair, repairRedFrom_eq, bind_map_left]
  rfl

theorem repairShortFrom_eq (rounds : Nat) (link : Link) :
    (repairShortFrom rounds link : Relink α Link) = shortLoop.run rounds link := by
  induction rounds generalizing link with
  | zero => rfl
  | succ rounds ih =>
    simp only [repairShortFrom, Loop.run, shortLoop, ih, bind_assoc, pure_bind, decide_eq_true_eq]

theorem repairShort_eq : (repairShort : Link → Relink α Unit) = shortLoop.repair := by
  funext link
  simp only [repairShort, Loop.repair, repairShortFrom_eq]
  rfl

section Red
variable {stage : Stage α} {tree : Tree α} {trail : Trail} {hole : Shape} {link : Link} {rank : Nat}

/-- A stage of the repair after an insertion: at the link hangs a red subtree, and not under a
red node once a rotation was made. -/
structure RedStage (stage : Stage α) (trail : Trail) (hole : Shape) (rank : Nat) : Prop where
  linked : stage.tree.Linked (trail.plug hole)
  named : hole.link = stage.link
  calm : stage.tree.Calm
  trouble : trail.RedAt hole rank
  turns : stage.turns = 0 ∨ trail.UnderBlack ∧ stage.turns ≤ 2

theorem RedStage.asks (red : RedStage stage trail hole rank) : redLoop.Asks stage (decide (trail.color = .red)) := by
  obtain ⟨slot, isNode⟩ := Shape.exists_link_of_red red.trouble.red
  have parent := red.linked.parent_eq isNode
  have color := red.linked.parent_color_eq red.calm.black
  rw [← isNode, red.named] at parent
  have still : Still (redLoop.test stage.link) stage.tree fun goesOn after =>
      goesOn = decide (trail.color = .red) ∧ after = stage.tree :=
    look_then parent (look_then color (.pure ⟨rfl, rfl, rfl⟩))
  exact still.runs.eq_ok

theorem RedStage.far (red : RedStage stage trail hole rank) : stage.tree.Far stage.link trail.length := by
  obtain ⟨slot, isNode⟩ := Shape.exists_link_of_red red.trouble.red
  rw [← red.named]
  apply red.linked.far
  rintro rfl
  cases isNode

/-- The loop goes on below a red node, which it does only before the first rotation. -/
theorem RedStage.of_asks (red : RedStage stage trail hole rank) (asks : redLoop.Asks stage true) :
    trail.color = .red ∧ stage.turns = 0 := by
  have isRed : trail.color = .red := by simpa using red.asks.unique asks
  constructor
  · exact isRed
  · apply red.turns.resolve_right
    rintro ⟨underBlack, -⟩
    cases underBlack.color.symm.trans isRed

/-- A round carries the trouble up. -/
theorem RedStage.round_safe (red : RedStage stage trail hole rank) (asks : redLoop.Asks stage true) :
    Safe (redLoop.round stage.link) stage.tree fun higher tree turns => ∃ trail' hole' rank',
      (∀ edits, Edit.rotations edits = turns → RedStage (stage.after higher edits tree) trail' hole' rank') ∧
        trail'.length < trail.length := by
  obtain ⟨slot, isNode⟩ := Shape.exists_link_of_red red.trouble.red
  obtain ⟨isRed, none⟩ := red.of_asks asks
  obtain ⟨side, parent, sibling, upper, grand, uncle, above, rfl⟩ := red.trouble.around.above_red isRed
  have step := repairRedStep_safe red.linked isNode red.calm.black red.trouble
  rw [← isNode, red.named] at step
  apply step.weaken
  rintro _ tree _ ⟨trail', hole', rank', rfl, linked', -, kept, trouble', nearer, few⟩
  refine ⟨trail', hole', rank', ?_, nearer⟩
  rintro edits rfl
  constructor
  case linked => exact linked'
  case named => rfl
  case calm => exact kept.calm red.calm
  case trouble => exact trouble'
  case turns =>
    rw [Stage.turns_after, none, Nat.zero_add]
    exact few

theorem RedStage.orderly (red : RedStage stage trail hole rank) :
    redLoop.Orderly 2 (fun stage => ∃ trail hole rank, RedStage stage trail hole rank) stage := by
  constructor
  case few => exact red.turns.elim (fun none => by omega) And.right
  case calm => exact red.calm
  case far => exact ⟨trail.length, red.far⟩
  case tested => exact ⟨_, red.asks⟩
  case round =>
    intro asks
    apply (red.round_safe asks).weaken
    rintro higher tree turns ⟨trail', hole', rank', kept, nearer⟩ edits made
    have red' := kept edits made
    constructor
    · exact ⟨trail', hole', rank', red'⟩
    · intro _
      exact ⟨_, _, red.far, red'.far, nearer⟩

theorem RedStage.completes (red : RedStage ⟨link, [], tree⟩ trail hole rank) :
    redLoop.Completes 2 repairRed link tree := by
  have safe := repairRed_safe red.linked red.named red.calm.black red.trouble
  rw [repairRed_eq] at safe ⊢
  have orderly : ∀ stage : Stage α, (∃ trail hole rank, RedStage stage trail hole rank) →
      redLoop.Orderly 2 (fun stage => ∃ trail hole rank, RedStage stage trail hole rank) stage := by
    rintro stage ⟨trail, hole, rank, red⟩
    exact red.orderly
  exact Loop.completes_of_orderly orderly ⟨trail, hole, rank, red⟩ safe

end Red

section Short
variable {stage : Stage α} {tree : Tree α} {trail : Trail} {hole : Shape} {link : Link} {rank : Nat}

/-- A stage of the repair after a removal: the ways through the link are a black node short, and
the loop is at its end once a rotation was made. At first the link may be the sentinel's. -/
structure ShortStage (stage : Stage α) (trail : Trail) (hole : Shape) (rank : Nat) : Prop where
  linked : stage.tree.Linked (trail.plug hole)
  named : hole.link = stage.link
  calm : stage.tree.Calm
  scratch : hole = .leaf → stage.tree.sentinel.parent = trail.parent
  shortage : trail.ShortAt hole rank
  turns : stage.turns = 0 ∨ stage.turns ≤ 3 ∧ (hole.color = .red ∨ trail = .top)

theorem ShortStage.far (short : ShortStage stage trail hole rank) : stage.tree.Far stage.link trail.length := by
  rw [← short.named]
  exact short.linked.far short.scratch

theorem ShortStage.asks (short : ShortStage stage trail hole rank) :
    shortLoop.Asks stage (decide (stage.link ≠ stage.tree.root ∧ hole.color = .black)) := by
  have color := short.linked.color_eq short.calm.black
  rw [short.named] at color
  have still : Still (shortLoop.test stage.link) stage.tree fun goesOn after =>
      goesOn = decide (stage.link ≠ stage.tree.root ∧ hole.color = .black) ∧ after = stage.tree :=
    current_then (look_then color (.pure ⟨rfl, rfl, rfl⟩))
  exact still.runs.eq_ok

/-- The loop goes on at a black node that hangs below another one, which it does only before the
first rotation. -/
theorem ShortStage.of_asks (short : ShortStage stage trail hole rank) (asks : shortLoop.Asks stage true) :
    hole.color = .black ∧ trail ≠ .top ∧ stage.turns = 0 := by
  obtain ⟨below, black⟩ : stage.link ≠ stage.tree.root ∧ hole.color = .black := by
    simpa using short.asks.unique asks
  have proper : trail ≠ .top := by
    rintro rfl
    exact below (short.named.symm.trans short.linked.root.symm)
  constructor
  · exact black
  · constructor
    · exact proper
    · apply short.turns.resolve_right
      rintro ⟨-, red | top⟩
      · cases black.symm.trans red
      · exact proper top

/-- A round carries the trouble up or leaves it at a red node. -/
theorem ShortStage.round_safe (short : ShortStage stage trail hole rank) (asks : shortLoop.Asks stage true) :
    Safe (shortLoop.round stage.link) stage.tree fun higher tree turns => ∃ trail' hole' rank',
      (∀ edits, Edit.rotations edits = turns → ShortStage (stage.after higher edits tree) trail' hole' rank') ∧
        (hole'.color = .red ∨ trail'.length < trail.length) := by
  obtain ⟨black, proper, none⟩ := short.of_asks asks
  cases trail with
  | top => exact absurd rfl proper
  | under side hue parent sibling above =>
    have step := repairShortStep_safe short.linked short.calm.black short.scratch black short.shortage
    rw [short.named] at step
    apply step.weaken
    rintro _ tree _ ⟨trail', hole', rank', rfl, notLeaf, linked', -, kept, shortage', nearer, few, ends⟩
    refine ⟨trail', hole', rank', ?_, nearer⟩
    rintro edits rfl
    constructor
    case linked => exact linked'
    case named => rfl
    case calm => exact kept.calm short.calm
    case scratch => exact fun empty => absurd empty notLeaf
    case shortage => exact shortage'
    case turns =>
      rw [Stage.turns_after, none, Nat.zero_add]
      exact ends.imp_right fun ends => ⟨few, ends⟩

theorem ShortStage.orderly (short : ShortStage stage trail hole rank) :
    shortLoop.Orderly 3 (fun stage => ∃ trail hole rank, ShortStage stage trail hole rank) stage := by
  constructor
  case few => exact short.turns.elim (fun none => by omega) And.left
  case calm => exact short.calm
  case far => exact ⟨trail.length, short.far⟩
  case tested => exact ⟨_, short.asks⟩
  case round =>
    intro asks
    apply (short.round_safe asks).weaken
    rintro higher tree turns ⟨trail', hole', rank', kept, nearer⟩ edits made
    have short' := kept edits made
    constructor
    · exact ⟨trail', hole', rank', short'⟩
    · intro asks'
      obtain ⟨black', -⟩ := short'.of_asks asks'
      rcases nearer with red' | nearer
      · cases black'.symm.trans red'
      · exact ⟨_, _, short.far, short'.far, nearer⟩

theorem ShortStage.completes (short : ShortStage ⟨link, [], tree⟩ trail hole rank) :
    shortLoop.Completes 3 repairShort link tree := by
  have safe := repairShort_safe short.linked short.calm.black short.scratch short.shortage
  rw [short.named, repairShort_eq] at safe
  rw [repairShort_eq]
  have orderly : ∀ stage : Stage α, (∃ trail hole rank, ShortStage stage trail hole rank) →
      shortLoop.Orderly 3 (fun stage => ∃ trail hole rank, ShortStage stage trail hole rank) stage := by
    rintro stage ⟨trail, hole, rank, short⟩
    exact short.orderly
  exact Loop.completes_of_orderly orderly ⟨trail, hole, rank, short⟩ safe

end Short

section Complete
variable {tree grown : Tree α} {shape : Shape} {parent : Link} {side : Side} {value : α} {gone : Nat}

/-- A place where a node can be hung is a place of the shape where nothing hangs. -/
theorem exists_trail (linked : tree.Linked shape) (vacant : tree.Vacant shape parent side) :
    ∃ trail, shape = Trail.plug trail .leaf ∧ trail.parent = parent ∧
      ∀ link, (hang link parent side : Relink α Unit) = hang link trail.parent (trail.sideOr .right) := by
  cases vacant with
  | root side empty =>
    have missing : shape = .leaf := Shape.link_eq_none.mp (linked.root.symm.trans empty)
    exact ⟨.top, missing, rfl, fun _ => rfl⟩
  | @below slot side inside missing =>
    obtain ⟨trail, hue, near, far, rfl⟩ := Trail.exists_plug_join side inside
    have named : near.link = none := Except.ok.inj (linked.down.child_eq.1.symm.trans missing)
    obtain rfl := Shape.link_eq_none.mp named
    exact ⟨.under side hue slot far trail, rfl, rfl, fun _ => rfl⟩

theorem hang_completes (valid : tree.RedBlack shape) (vacant : tree.Vacant shape parent side)
    (more : tree.Grown ⟨.leaf parent, value⟩ grown) :
    ∃ hung, (hang (some tree.size) parent side).run grown = .ok () hung ∧
      redLoop.Completes 2 repairRed (some tree.size) hung := by
  obtain ⟨trail, rfl, rfl, same⟩ := exists_trail valid.linked vacant
  obtain ⟨total, balanced⟩ := valid.balanced
  have absent : tree.size ∉ trail.slots := fun inside =>
    Nat.lt_irrefl _ (valid.linked.live tree.size (by simp [inside]))
  have live : tree.size < grown.size := more.size ▸ Nat.lt_succ_self _
  obtain ⟨_, hung, ran, linked, kept⟩ := (hang_still (more.linked valid.linked) more.record_new absent live).runs.answers
  have red : RedStage ⟨some tree.size, [], hung⟩ trail (.node .red .leaf tree.size .leaf) 0 := by
    constructor
    case linked => exact linked
    case named => rfl
    case calm =>
      rw [Tree.Calm, kept.sentinel, more.sentinel]
      exact valid.calm
    case trouble => exact Trail.redAt_new balanced valid.black tree.size
    case turns => exact .inl rfl
  rw [same]
  exact ⟨hung, ran, red.completes⟩

theorem bypass_completes (valid : tree.RedBlack shape) (inside : gone ∈ shape.slots)
    (black : tree.color (some gone) = .ok .black) (missing : tree.child side (some gone) = .ok none) :
    ∃ orphan after, (bypass gone).run tree = .ok orphan after ∧ shortLoop.Completes 3 repairShort orphan after := by
  obtain ⟨trail, hue, near, far, rfl⟩ := Trail.exists_plug_join side inside
  have linked := valid.linked
  have named : near.link = none := Except.ok.inj (linked.down.child_eq.1.symm.trans missing)
  obtain rfl := Shape.link_eq_none.mp named
  have color := linked.color_eq valid.calm.black
  rw [Shape.link_join, Shape.color_join, black] at color
  cases color
  obtain ⟨total, balanced⟩ := valid.balanced
  obtain ⟨rank, around, inner, -⟩ := Trail.Around.of_plug balanced valid.black
  have still := bypass_still linked
  obtain ⟨_, after, ran, rfl, bypassed⟩ := still.runs.answers
  have short : ShortStage ⟨far.link, [], after⟩ trail far 0 := by
    constructor
    case linked => exact bypassed.linked
    case named => rfl
    case calm => exact still.calm valid.calm (passes_last ran)
    case scratch => exact bypassed.scratch
    case shortage => exact around.shortAt_only inner
    case turns => exact .inl rfl
  exact ⟨far.link, after, ran, short.completes⟩

/-- The repairs of red-black trees come to their ends: the one after a red leaf was hung at any
place where no node was, with two rotations at most, and the one after a black node with one
child at most gave its place to that child or to the sentinel, with three at most. -/
theorem repairs_complete (valid : tree.RedBlack shape) :
    (∀ parent side value grown, tree.Vacant shape parent side → tree.Grown ⟨.leaf parent, value⟩ grown →
      ∃ hung, (hang (some tree.size) parent side).run grown = .ok () hung ∧
        redLoop.Completes 2 repairRed (some tree.size) hung) ∧
    ∀ gone side, gone ∈ shape.slots → tree.color (some gone) = .ok .black →
      tree.child side (some gone) = .ok none →
      ∃ orphan after, (bypass gone).run tree = .ok orphan after ∧ shortLoop.Completes 3 repairShort orphan after := by
  constructor
  · intro parent side value grown vacant more
    exact hang_completes valid vacant more
  · intro gone side inside black missing
    exact bypass_completes valid inside black missing

end Complete

/-- Three black nodes, and a red one below the largest of them. -/
def lopsided : Tree Nat where
  nodes := ⟨.inline 4, #[⟨⟨none, none, some 1, .black⟩, 10⟩, ⟨⟨some 0, some 2, none, .black⟩, 20⟩,
    ⟨⟨none, some 3, some 1, .black⟩, 30⟩, ⟨⟨none, none, some 2, .red⟩, 40⟩]⟩
  root := some 1

/-- The new node has a red parent, no uncle and hangs on the inner side; the node that leaves is
black and has no child. -/
theorem repairs_complete_lopsided :
    (∃ hung, (hang (some 4) (some 3) .left).run { lopsided with
        nodes := ⟨.inline 5, lopsided.nodes.items.push ⟨.leaf (some 3), 35⟩⟩ } = .ok () hung ∧
      redLoop.Completes 2 repairRed (some 4) hung) ∧
    ∃ orphan after, (bypass 0).run lopsided = .ok orphan after ∧ shortLoop.Completes 3 repairShort orphan after := by
  have linked : lopsided.Linked (.node .black (.node .black .leaf 0 .leaf) 1
      (.node .black .leaf 2 (.node .red .leaf 3 .leaf))) :=
    ⟨rfl, ⟨rfl, ⟨rfl, trivial, trivial⟩, rfl, trivial, rfl, trivial, trivial⟩, by decide, by decide⟩
  have valid : lopsided.RedBlack (.node .black (.node .black .leaf 0 .leaf) 1
      (.node .black .leaf 2 (.node .red .leaf 3 .leaf))) :=
    ⟨linked, rfl, rfl, 2, 1, rfl, ⟨0, rfl, rfl, rfl⟩, 0, rfl, rfl, rfl, rfl, rfl, rfl⟩
  have complete := repairs_complete valid
  constructor
  · exact complete.1 (some 3) .left 35 _ (.below (by decide) rfl) ⟨rfl, rfl, rfl⟩
  · exact complete.2 0 .left (by decide) rfl rfl

end Relink

end Containers
