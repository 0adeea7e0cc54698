import Containers.Proofs.MapRuns
import Containers.Proofs.Sparing
import Containers.Proofs.Validation

/-! What an operation on a tree leaves that fails. Filing a value asks for room after the
search, which changes nothing, and before the new node is linked, behind which nothing
fails; all else asks for nothing. -/
namespace Containers

section Reads
variable {α β γ κ : Type} {tree : Tree α}

/-- Whatever the read fails of, it is no refusal. -/
def Plain (read : Except Fault β) : Prop :=
  ∀ fault, read = .error fault → fault.layout? = none

theorem plain_ok (answer : β) : Plain (.ok answer) :=
  nofun

theorem plain_error {fault : Fault} (plain : fault.layout? = none) : Plain (.error fault : Except Fault β) := by
  rintro _ ⟨⟩
  exact plain

theorem plain_bind {read : Except Fault β} {next : β → Except Fault γ} (first : Plain read)
    (rest : ∀ answer, Plain (next answer)) : Plain (read >>= next) := by
  cases read with
  | ok answer => exact rest answer
  | error fault => exact plain_error (first fault rfl)

theorem plain_map (f : β → γ) {read : Except Fault β} (plain : Plain read) : Plain (f <$> read) := by
  cases read with
  | ok answer => exact plain_ok (f answer)
  | error fault => exact plain_error (plain fault rfl)

namespace Tree

theorem nodeAt_plain (tree : Tree α) (slot : Nat) : Plain (tree.nodeAt slot) := by
  unfold nodeAt
  split
  · exact plain_ok _
  · exact plain_error rfl

theorem links_plain (tree : Tree α) (link : Link) : Plain (tree.links link) := by
  cases link with
  | none => exact plain_ok _
  | some slot => exact plain_map _ (tree.nodeAt_plain slot)

theorem child_plain (tree : Tree α) (side : Side) (link : Link) : Plain (tree.child side link) :=
  plain_map _ (tree.links_plain link)

theorem parent_plain (tree : Tree α) (link : Link) : Plain (tree.parent link) :=
  plain_map _ (tree.links_plain link)

theorem outermostFrom_plain (tree : Tree α) (side : Side) (steps slot : Nat) :
    Plain (tree.outermostFrom side steps slot) := by
  induction steps generalizing slot with
  | zero => exact plain_error rfl
  | succ steps ih =>
    refine plain_bind (tree.child_plain side _) fun lower => ?_
    cases lower with
    | none => exact plain_ok slot
    | some lower => exact ih lower

theorem climb_plain (tree : Tree α) (steps : Nat) (link parent : Link) : Plain (tree.climb steps link parent) := by
  induction steps generalizing link parent with
  | zero => exact plain_error rfl
  | succ steps ih =>
    cases parent with
    | none => exact plain_ok none
    | some slot =>
      refine plain_bind (tree.child_plain .right _) fun lower => ?_
      split
      · exact plain_bind (tree.parent_plain _) fun above => ih _ above
      · exact plain_ok _

theorem next_plain (tree : Tree α) (link : Link) : Plain (tree.next link) := by
  unfold next
  split
  · exact plain_ok none
  · refine plain_bind (tree.child_plain .right link) fun lower => ?_
    cases lower with
    | none => exact plain_bind (tree.parent_plain link) fun above => tree.climb_plain _ link above
    | some slot => exact plain_map _ (tree.outermostFrom_plain .left _ slot)

theorem subtreeSizeWithin_plain (tree : Tree α) (depth : Nat) (link : Link) :
    Plain (tree.subtreeSizeWithin depth link) := by
  induction depth generalizing link with
  | zero =>
    cases link with
    | none => exact plain_ok 0
    | some slot => exact plain_error rfl
  | succ depth ih =>
    cases link with
    | none => exact plain_ok 0
    | some slot =>
      refine plain_bind (tree.child_plain .left _) fun left => ?_
      refine plain_bind (ih left) fun leftSize => ?_
      refine plain_bind (tree.child_plain .right _) fun right => ?_
      exact plain_bind (ih right) fun rightSize => plain_ok _

theorem visitsWithin_plain (tree : Tree α) (limit : Nat) (link : Link) (depth : Nat) :
    Plain (tree.visitsWithin limit link depth) := by
  induction limit generalizing link depth with
  | zero =>
    cases link with
    | none => exact plain_ok []
    | some slot => exact plain_error rfl
  | succ limit ih =>
    cases link with
    | none => exact plain_ok []
    | some slot =>
      have finish : ∀ side : Option Side, Plain (do
          let node ← tree.nodeAt slot
          let below ← tree.visitsWithin limit node.links.left (depth + 1)
          let beside ← tree.visitsWithin limit node.links.right (depth + 1)
          return ⟨node, side, depth⟩ :: (below ++ beside) : Except Fault (List (Visit α))) := by
        intro side
        refine plain_bind (tree.nodeAt_plain slot) fun node => ?_
        refine plain_bind (ih _ _) fun below => ?_
        exact plain_bind (ih _ _) fun beside => plain_ok _
      refine plain_bind (tree.parent_plain _) fun above => ?_
      cases above with
      | none => exact plain_bind (plain_ok none) finish
      | some above =>
        refine plain_bind (tree.child_plain .left _) fun lower => ?_
        split
        · exact plain_bind (plain_ok _) finish
        · exact plain_bind (plain_ok _) finish

variable [Keyed α κ] [Ord κ] {values : List α}

/-- The questions to a tree in order are answered, or the link is stale that they are about. -/
theorem Represents.answer_plain [Std.TransOrd κ] [Shown κ] [Shown α] (represents : tree.Represents values)
    (query : Query κ) : Plain (tree.answer query) := by
  obtain ⟨shape, sound, -⟩ := represents
  cases query with
  | find k =>
    obtain ⟨link, found, -⟩ := sound.find?_eq k
    rw [answer, found]
    exact plain_ok _
  | first =>
    rw [answer, sound.linked.first_eq]
    exact plain_ok _
  | last =>
    rw [answer, sound.linked.last_eq]
    exact plain_ok _
  | validate =>
    obtain ⟨rank, balanced⟩ := sound.balanced
    rw [answer, sound.validate_eq balanced]
    exact plain_ok _
  | next link => exact plain_map _ (tree.next_plain link)
  | subtreeSize link => exact plain_map _ (tree.subtreeSizeWithin_plain _ link)
  | traverse => exact plain_map _ (tree.visitsWithin_plain _ _ 0)
  | root | value _ | node _ | isEmpty | toDot | writeDot _ => exact plain_ok _

end Tree

end Reads

theorem spares_look {σ β : Type} {asked : Option Layout} {host : Host σ} {read : σ → Except Fault β}
    (plain : Plain (read host.container)) : Spares asked (Op.look read) host := by
  unfold Spares Leads Op.look
  cases found : read host.container with
  | ok answer => exact trivial
  | error fault => exact .untouched (plain fault found)

namespace Tree
variable {α κ : Type} [Keyed α κ] [Ord κ] [Stored α] {host : Host (Tree α)} {values : List α}

/-- The layout that a command asks for if it has to. -/
def Command.asks (tree : Tree α) : Command α κ → Option Layout
  | .insert _ => slots (Node α) (Vector.doubled tree.nodes.capacity)
  | .tryInsert _ => slots (Node α) (Vector.doubled tree.nodes.capacity)
  | _ => none

/-- A tree that is begun anew over a fresh storage asks for nothing. -/
theorem renew_spares {asked : Option Layout} : Spares asked (renewOver (pure ())) host := by
  refine spares_reading (spares_bind (spares_build ?_ ?_) fun _ _ => trivial)
  · exact Vector.release_vacated .fresh
  · exact trivial

theorem eraseNode_spares {shape : Shape} {asked : Option Layout} (sound : host.container.Sound shape) (link : Link) :
    Spares asked (eraseNode link) host := by
  cases link with
  | none => exact spares_fail _
  | some slot =>
    by_cases live : slot < host.container.size
    · exact (eraseNode_sure sound live).weaken fun _ _ _ => trivial
    · unfold eraseNode
      apply spares_reading
      rw [Spares, leads_bind, leads_require, if_neg live]
      exact .untouched rfl

variable [Std.TransOrd κ]

/-- The search changes nothing, and once there is room for the new node nothing fails. -/
theorem tryInsert_spares {shape : Shape} (sound : host.container.Sound shape) (value : α) :
    Spares (slots (Node α) (Vector.doubled host.container.nodes.capacity)) (tryInsert value) host := by
  obtain ⟨place, search, located⟩ := locate_located sound.linked sound.sorted (Keyed.key value)
  unfold tryInsert
  apply read_then search
  cases located with
  | found inside filled same => exact trivial
  | @vacant trail place parts =>
    subst place
    rw [leads_bind, onNodes, leads_part]
    refine ((Vector.tryPush_leads ⟨host.container.nodes, host.pool⟩ _).and (Vector.tryPush_spares _)).mono ?_ ?_
    · rintro _ ⟨nodes, pool⟩ ⟨⟨items, -⟩, -⟩
      have more : host.container.Grown ⟨.leaf trail.parent, value⟩ { host.container with nodes } :=
        ⟨items, rfl, rfl⟩
      apply current_then
      rw [more.size, Nat.add_sub_cancel]
      exact (place_sure pool sound parts more).weaken fun _ _ _ => trivial
    · rintro fault after ⟨-, spared⟩
      cases spared with
      | untouched plain => exact .untouched plain
      | refused named wanted refuses => exact .refused named wanted refuses

variable [Shown κ] [Shown α]

/-- Every command but those that make another tree beside. -/
theorem perform_spares (represents : host.container.Represents values) (command : Command α κ)
    (prepared : ∀ slots nodes, command ≠ .renewOver slots nodes) (given : ∀ values, command ≠ .renewFrom values) :
    Spares (command.asks host.container) command.perform host := by
  have sure : ∀ {β : Type} {op : Op (Tree α) β} {left : β → Host (Tree α) → Prop}, Sure op host left →
      Spares none op host := fun held => held.weaken fun _ _ _ => trivial
  obtain ⟨shape, sound, isValues⟩ := id represents
  cases command with
  | insert value => exact spares_map _ (spares_orAbort (tryInsert_spares sound value))
  | tryInsert value => exact spares_map _ (tryInsert_spares sound value)
  | get k =>
    refine spares_map _ (spares_look ?_)
    rw [sound.get?_eq k]
    exact plain_ok _
  | contains k =>
    refine spares_map _ (spares_look ?_)
    rw [sound.contains_eq k]
    exact plain_ok _
  | erase k => exact spares_map _ (sure (erase_sure represents k))
  | remove k => exact spares_map _ (sure (remove_sure represents k))
  | eraseNode link => exact spares_map _ (eraseNode_spares sound link)
  | clear => exact trivial
  | iterate calls =>
    refine spares_map _ (spares_look ?_)
    rw [represents.walk_eq calls]
    exact plain_ok _
  | text =>
    refine spares_map _ (spares_look ?_)
    rw [text, represents.toList_eq]
    exact plain_ok _
  | renew => exact spares_bind renew_spares fun _ _ => trivial
  | renewOver slots nodes => exact absurd rfl (prepared slots nodes)
  | renewFrom values => exact absurd rfl (given values)
  | ask query => exact spares_map _ (spares_look (represents.answer_plain query))

end Tree

namespace Map
variable {κ ν : Type} [Ord κ] [Stored κ] [Stored ν] {host : Host (Map κ ν)} {entries : List (κ × ν)}

/-- The layout that a command asks for if it has to. -/
def Command.asks (map : Map κ ν) : Command κ ν → Option Layout
  | .insert _ _ => slots (Node (κ × ν)) (Vector.doubled map.nodes.capacity)
  | .tryInsert _ _ => slots (Node (κ × ν)) (Vector.doubled map.nodes.capacity)
  | _ => none

variable [Std.TransOrd κ]

/-- Only a key that is absent asks for room, and then nothing was overwritten. -/
theorem tryInsert_spares (represents : Tree.Represents host.container entries) (k : κ) (value : ν) :
    Spares (slots (Node (κ × ν)) (Vector.doubled host.container.nodes.capacity)) (tryInsert k value) host := by
  unfold tryInsert
  apply (setValue_sure represents k value).andThen
  rintro answer after ⟨isAnswer, -, -, unchanged⟩
  cases found : Listing.find? k entries with
  | some entry =>
    rw [found] at isAnswer
    subst isAnswer
    exact trivial
  | none =>
    rw [found] at isAnswer
    obtain rfl := (unchanged found).symm
    subst isAnswer
    obtain ⟨shape, sound, -⟩ := represents
    exact spares_bind (Tree.tryInsert_spares sound (k, value)) fun _ _ => trivial

variable [Shown κ] [Shown ν]

/-- Every command but the one that collects pairs in another map. -/
theorem perform_spares (represents : Tree.Represents host.container entries) (command : Command κ ν)
    (given : ∀ pairs, command ≠ .renewFrom pairs) : Spares (command.asks host.container) command.perform host := by
  have sure : ∀ {β : Type} {op : Op (Map κ ν) β} {left : β → Host (Map κ ν) → Prop}, Sure op host left →
      Spares none op host := fun held => held.weaken fun _ _ _ => trivial
  obtain ⟨shape, sound, isEntries⟩ := id represents
  cases command with
  | insert k value => exact spares_map _ (spares_orAbort (tryInsert_spares represents k value))
  | tryInsert k value => exact spares_map _ (tryInsert_spares represents k value)
  | get k =>
    refine spares_map _ (spares_look (plain_map _ ?_))
    rw [sound.get?_eq k]
    exact plain_ok _
  | setValue k value => exact spares_map _ (sure (setValue_sure represents k value))
  | contains k =>
    refine spares_map _ (spares_look ?_)
    rw [sound.contains_eq k]
    exact plain_ok _
  | remove k => exact spares_map _ (spares_map _ (sure (Tree.remove_sure represents k)))
  | extreme side =>
    refine spares_map _ (spares_look (plain_map _ ?_))
    cases side with
    | left =>
      rw [show Tree.extreme host.container .left = _ from sound.linked.first_eq]
      exact plain_ok _
    | right =>
      rw [show Tree.extreme host.container .right = _ from sound.linked.last_eq]
      exact plain_ok _
  | clear => exact trivial
  | iterate calls =>
    refine spares_map _ (spares_look ?_)
    rw [walk_eq represents calls]
    exact plain_ok _
  | text =>
    refine spares_map _ (spares_look (plain_map _ ?_))
    rw [represents.toList_eq]
    exact plain_ok _
  | renew => exact spares_bind Tree.renew_spares fun _ _ => trivial
  | renewFrom pairs => exact absurd rfl (given pairs)
  | ask query => exact spares_map _ (spares_look (represents.answer_plain query))

end Map

end Containers
