import Containers.Proofs.EraseRepair
import Mathlib.Logic.Relation

/-! Loops that climb a tree. They go from link to link, and a round may turn the very nodes on
the way to the root; if the next link is nearer to the root whenever the loop goes on there,
the loop comes to its end. A loop with a limit on its rounds that does not reach the limit
ends at the same stage. -/
namespace Containers

namespace Tree
variable {α : Type} {tree : Tree α} {hole : Shape} {trail : Trail} {link : Link} {m n : Nat}

/-- So many parent links lead from a link up to the root. The parent of the sentinel is the one
that its record names. -/
inductive Far (tree : Tree α) : Link → Nat → Prop
  | root : Far tree tree.root 0
  | up {link above : Link} {count : Nat} (beneath : link ≠ tree.root) (parent : tree.parent link = .ok above)
      (rest : Far tree above count) : Far tree link (count + 1)

theorem Far.unique (first : tree.Far link m) (second : tree.Far link n) : m = n := by
  induction first generalizing n with
  | root =>
    cases second with
    | root => rfl
    | up beneath parent rest => exact absurd rfl beneath
  | up beneath parent rest ih =>
    cases second with
    | root => exact absurd rfl beneath
    | up beneath' parent' rest' =>
      cases parent.symm.trans parent'
      rw [ih rest']

/-- A place is as far from the root as its trail is long. -/
theorem Linked.far (linked : tree.Linked (trail.plug hole))
    (scratch : hole = .leaf → tree.sentinel.parent = trail.parent) : tree.Far hole.link trail.length := by
  induction trail generalizing hole with
  | top =>
    rw [← show tree.root = hole.link from linked.root]
    exact .root
  | under side hue slot sibling above ih =>
    apply Far.up
    · rw [linked.root]
      have proper : Trail.under side hue slot sibling above ≠ .top := nofun
      exact (Trail.link_plug_ne proper linked.distinct).symm
    · exact linked.parent_at scratch
    · rw [Trail.parent, ← Shape.link_join]
      exact ih linked.up fun empty => absurd empty Shape.join_ne_leaf

end Tree

namespace Relink
variable {α : Type}

/-- A loop that goes from link to link: whether to make a round at a link, which only reads; the
round, which answers the next link; and what is left to do at the link where the loop ends, which
rotates nothing. -/
structure Loop (α : Type) where
  test : Link → Relink α Bool
  round : Link → Relink α Link
  finish : Link → Relink α Unit
  silent (link : Link) (tree : Tree α) : (test link).trace tree = []
  still (link : Link) (tree : Tree α) : Edit.rotations ((finish link).trace tree) = 0

/-- Where a loop is between two rounds: at which link, what it has written so far, and in which
tree. -/
structure Stage (α : Type) where
  link : Link
  written : List Edit
  tree : Tree α

/-- The rotations made so far. -/
def Stage.turns (stage : Stage α) : Nat :=
  Edit.rotations stage.written

/-- What one more change leaves of a stage. -/
def Stage.after (stage : Stage α) (link : Link) (edits : List Edit) (tree : Tree α) : Stage α :=
  ⟨link, stage.written ++ edits, tree⟩

theorem Stage.after_nil (stage : Stage α) : stage.after stage.link [] stage.tree = stage := by
  rw [Stage.after, List.append_nil]

@[simp] theorem Stage.turns_after (stage : Stage α) (link : Link) (edits : List Edit) (tree : Tree α) :
    (stage.after link edits tree).turns = stage.turns + Edit.rotations edits :=
  Edit.rotations_append ..

namespace Loop
variable {loop : Loop α} {limit : Nat} {inv : Stage α → Prop} {start stage later : Stage α}

/-- What the test answers. -/
def Asks (loop : Loop α) (stage : Stage α) (goesOn : Bool) : Prop :=
  (loop.test stage.link).run stage.tree = .ok goesOn stage.tree

theorem Asks.unique {first second : Bool} (asks : loop.Asks stage first) (again : loop.Asks stage second) :
    first = second := by
  cases asks.symm.trans again
  rfl

/-- One round from a stage at which the loop goes on. -/
structure Round (loop : Loop α) (stage next : Stage α) : Prop where
  goesOn : loop.Asks stage true
  ran : (loop.round stage.link).run stage.tree = .ok next.link next.tree
  written : next.written = stage.written ++ (loop.round stage.link).trace stage.tree

/-- The stages that a loop comes to. -/
abbrev Reaches (loop : Loop α) : Stage α → Stage α → Prop :=
  Relation.ReflTransGen loop.Round

/-- The next link is nearer to the root than this one, each in the tree of its stage. -/
def Nearer (stage next : Stage α) : Prop :=
  ∃ far near, stage.tree.Far stage.link far ∧ next.tree.Far next.link near ∧ near < far

/-- How a loop goes that comes to an end. No slot that it names is missing, so that the test and
the rounds succeed; all that it writes is harmless, so that the sentinel is calm; a round after
which it goes on brings it nearer to the root; and it makes no more rotations than the limit. -/
structure Settles (loop : Loop α) (limit : Nat) (start : Stage α) : Prop where
  terminates : Acc (fun next stage => loop.Round stage next) start
  tested : ∀ stage, loop.Reaches start stage → ∃ goesOn, loop.Asks stage goesOn
  made : ∀ stage, loop.Reaches start stage → loop.Asks stage true → ∃ next, loop.Round stage next
  harmless : ∀ stage, loop.Reaches start stage → ∀ edit ∈ stage.written, edit.Harmless
  calm : ∀ stage, loop.Reaches start stage → stage.tree.Calm
  nearer : ∀ stage next, loop.Reaches start stage → loop.Round stage next → loop.Asks next true → Nearer stage next
  few : ∀ stage, loop.Reaches start stage → stage.turns ≤ limit

/-- What is known at one stage of a loop with an invariant, which may depend on how many rotations
were made but on nothing else that was written. -/
structure Orderly (loop : Loop α) (limit : Nat) (inv : Stage α → Prop) (stage : Stage α) : Prop where
  few : stage.turns ≤ limit
  calm : stage.tree.Calm
  far : ∃ far, stage.tree.Far stage.link far
  tested : ∃ goesOn, loop.Asks stage goesOn
  round : loop.Asks stage true → Safe (loop.round stage.link) stage.tree fun link tree turns =>
    ∀ edits, Edit.rotations edits = turns → inv (stage.after link edits tree) ∧
      (loop.Asks (stage.after link edits tree) true → Nearer stage (stage.after link edits tree))

/-- What a round from an orderly stage writes and leaves. -/
theorem Orderly.next (orderly : loop.Orderly limit inv stage) (round : loop.Round stage later) :
    (∀ edit ∈ (loop.round stage.link).trace stage.tree, edit.Harmless) ∧ inv later ∧
      (loop.Asks later true → Nearer stage later) := by
  obtain ⟨goesOn, ran, written⟩ := round
  obtain ⟨link, edits, tree⟩ := later
  cases written
  obtain ⟨harmless, sure⟩ := orderly.round goesOn
  exact ⟨harmless, sure.of_ok ran _ rfl⟩

/-- The next stage, wherever an orderly loop goes on. -/
theorem Orderly.exists_next (orderly : loop.Orderly limit inv stage) (goesOn : loop.Asks stage true) :
    ∃ link tree, (loop.round stage.link).run stage.tree = .ok link tree ∧
      loop.Round stage (stage.after link ((loop.round stage.link).trace stage.tree) tree) := by
  obtain ⟨link, tree, ran, -⟩ := (orderly.round goesOn).sure.answers
  exact ⟨link, tree, ran, goesOn, ran, rfl⟩

theorem reaches_keeps (orderly : ∀ stage, inv stage → loop.Orderly limit inv stage) (initial : inv start)
    (reached : loop.Reaches start stage) : inv stage := by
  induction reached with
  | refl => exact initial
  | tail earlier round ih => exact ((orderly _ ih).next round).2.1

/-- What a loop has written is harmless if it was so at the start. -/
theorem reaches_harmless (orderly : ∀ stage, inv stage → loop.Orderly limit inv stage) (initial : inv start)
    (before : ∀ edit ∈ start.written, edit.Harmless) (reached : loop.Reaches start stage) :
    ∀ edit ∈ stage.written, edit.Harmless := by
  induction reached with
  | refl => exact before
  | tail earlier round ih =>
    intro edit written
    rw [round.written, List.mem_append] at written
    exact written.elim (ih edit) (((orderly _ (reaches_keeps orderly initial earlier)).next round).1 edit)

/-- Going on means to be nearer to the root, and there is no nearer place than the root. -/
theorem terminates_of_orderly (orderly : ∀ stage, inv stage → loop.Orderly limit inv stage) (initial : inv start) :
    Acc (fun next stage => loop.Round stage next) start := by
  obtain ⟨count, far⟩ := (orderly start initial).far
  induction count using Nat.strongRecOn generalizing start with
  | ind count ih =>
    constructor
    intro next round
    obtain ⟨-, kept, nearer⟩ := (orderly start initial).next round
    by_cases goesOn : loop.Asks next true
    · obtain ⟨far', near, atStart, atNext, less⟩ := nearer goesOn
      rw [atStart.unique far] at less
      exact ih near less kept atNext
    · constructor
      intro later round
      exact absurd round.goesOn goesOn

theorem settles_of_orderly (orderly : ∀ stage, inv stage → loop.Orderly limit inv stage) (initial : inv start)
    (before : ∀ edit ∈ start.written, edit.Harmless) : loop.Settles limit start where
  terminates := terminates_of_orderly orderly initial
  tested stage reached := (orderly stage (reaches_keeps orderly initial reached)).tested
  made stage reached goesOn := by
    obtain ⟨link, tree, -, round⟩ := (orderly stage (reaches_keeps orderly initial reached)).exists_next goesOn
    exact ⟨_, round⟩
  harmless stage reached := reaches_harmless orderly initial before reached
  calm stage reached := (orderly stage (reaches_keeps orderly initial reached)).calm
  nearer stage next reached round := ((orderly stage (reaches_keeps orderly initial reached)).next round).2.2
  few stage reached := (orderly stage (reaches_keeps orderly initial reached)).few

/-- A loop with a limit on its rounds. -/
def run (loop : Loop α) : Nat → Link → Relink α Link
  | 0, _ => fail .endless
  | rounds + 1, link => do
    if ← loop.test link then
      let higher ← loop.round link
      loop.run rounds higher
    else
      return link

/-- Where a limited loop comes to an end, the loop without a limit ends as well, and both write
the same. -/
theorem run_reaches (orderly : ∀ stage, inv stage → loop.Orderly limit inv stage) (rounds : Nat) (initial : inv start)
    {last : Link} {tree : Tree α} (ran : (loop.run rounds start.link).run start.tree = .ok last tree) :
    loop.Reaches start (start.after last ((loop.run rounds start.link).trace start.tree) tree) ∧
      loop.Asks (start.after last ((loop.run rounds start.link).trace start.tree) tree) false := by
  induction rounds generalizing start with
  | zero => cases ran
  | succ rounds ih =>
    obtain ⟨goesOn, asks⟩ := (orderly start initial).tested
    unfold run at ran ⊢
    rw [run_bind_of_ok asks] at ran
    rw [trace_bind asks, loop.silent, List.nil_append]
    cases goesOn with
    | true =>
      simp only [↓reduceIte] at ran ⊢
      obtain ⟨link, middle, ranRound, round⟩ := (orderly start initial).exists_next asks
      rw [run_bind_of_ok ranRound] at ran
      rw [trace_bind ranRound]
      obtain ⟨reached, ends⟩ := ih (reaches_keeps orderly initial (.single round)) ran
      rw [Stage.after, ← List.append_assoc]
      exact ⟨.head round reached, ends⟩
    | false =>
      cases ran
      change loop.Reaches start (start.after start.link [] start.tree) ∧
        loop.Asks (start.after start.link [] start.tree) false
      rw [Stage.after_nil]
      exact ⟨.refl, asks⟩

/-- A loop with as many rounds as the tree allows, and what is left to do where it ends. -/
def repair (loop : Loop α) (link : Link) : Relink α Unit := do
  let last ← loop.run (← current).stepLimit link
  loop.finish last

/-- A repair as a loop from a link on. The loop comes to its end, and what the repair writes is
what the loop writes up to there and then the rest, so that it succeeds. All of this is harmless:
the sentinel is calm in every tree that the repair goes through. And no more rotations are among
the writes than the limit. -/
structure Completes (loop : Loop α) (limit : Nat) (repair : Link → Relink α Unit) (link : Link) (tree : Tree α) :
    Prop where
  settles : loop.Settles limit ⟨link, [], tree⟩
  ends : ∃ last after, loop.Reaches ⟨link, [], tree⟩ last ∧ loop.Asks last false ∧
    (repair link).trace tree = last.written ++ (loop.finish last.link).trace last.tree ∧
    (loop.finish last.link).run last.tree = .ok () after ∧ (repair link).run tree = .ok () after
  harmless : ∀ edit ∈ (repair link).trace tree, edit.Harmless
  calm : ∀ middle, (repair link).Passes tree middle → middle.Calm
  few : Edit.rotations ((repair link).trace tree) ≤ limit

theorem completes_of_orderly {link : Link} {tree : Tree α} {holds : Unit → Tree α → Nat → Prop}
    (orderly : ∀ stage, inv stage → loop.Orderly limit inv stage) (initial : inv ⟨link, [], tree⟩)
    (safe : Safe (loop.repair link) tree holds) : loop.Completes limit loop.repair link tree := by
  have settles := settles_of_orderly orderly initial nofun
  obtain ⟨_, after, ran, -⟩ := safe.sure.answers
  have parts : (loop.run tree.stepLimit link >>= loop.finish).run tree = .ok () after := ran
  obtain ⟨last, middle, ranLoop, ranFinish⟩ := exists_of_run_bind parts
  obtain ⟨reached, ends⟩ := run_reaches orderly tree.stepLimit initial ranLoop
  have whole : (loop.repair link).trace tree =
      (loop.run tree.stepLimit link).trace tree ++ (loop.finish last).trace middle := trace_bind ranLoop
  constructor
  case settles => exact settles
  case ends => exact ⟨_, after, reached, ends, whole, ranFinish, ran⟩
  case harmless => exact safe.harmless
  case calm => exact fun middle passes => safe.calm (orderly _ initial).calm passes
  case few =>
    rw [whole, Edit.rotations_append, loop.still, Nat.add_zero]
    exact settles.few _ reached

end Loop

end Relink

end Containers
