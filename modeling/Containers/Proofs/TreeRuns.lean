import Containers.Proofs.Dictionary
import Containers.Tree.Command

/-! Runs of trees. Whatever the commands are and whatever the allocators refuse, a
tree stands for a sorted list after every command, and what it answers is what
that list answers. -/
namespace Containers

namespace Tree
variable {α κ : Type} [Keyed α κ] [Ord κ]

namespace Reference

/-- The sorted list after a command, given what the tree answered. -/
def next (values : List α) : Command α κ → Except Fault (Reply α) → List α
  | .insert value, .ok _ => Listing.file value values
  | .tryInsert value, .ok _ => Listing.file value values
  | .erase k, .ok _ => Listing.drop k values
  | .remove k, .ok _ => Listing.drop k values
  | .eraseNode _, .ok (.value x) => Listing.drop (Keyed.key x) values
  | .clear, .ok _ => []
  | .renew, .ok _ => []
  | .renewOver _ _, .ok _ => []
  | .renewFrom given, .ok _ => given.foldl (fun filed value => Listing.file value filed) []
  | _, _ => values

/-- Filing answers a slot that holds what is filed under the key afterwards, and
changes nothing if the key was present; it fails only for want of room for an
absent key, and then the tree is as before. -/
def Files (values : List α) (value : α) (before : Host (Tree α)) (lift : Fault → Fault) [Stored α] :
    Except Fault (Reply α) → Host (Tree α) → Prop
  | .ok reply, after => ∃ slot, reply = .slot slot ∧
      after.container.value? (some slot) = Listing.find? (Keyed.key value) (Listing.file value values) ∧
      ((Listing.find? (Keyed.key value) values).isSome → after = before)
  | .error fault, after => after.container = before.container ∧ Listing.find? (Keyed.key value) values = none ∧
      ∃ cause, fault = lift cause ∧ Vector.Stuck ⟨before.container.nodes, before.pool⟩ cause

/-- The link leads to this value, or to the sentinel if there is none. -/
def Points (tree : Tree α) (link : Link) (value : Option α) : Prop :=
  tree.value? link = value ∧ (link = none ↔ value = none)

/-- What the answer to a command has to do with the sorted list. -/
def Agrees [Stored α] (values : List α) (before : Host (Tree α)) (outcome : Except Fault (Reply α))
    (after : Host (Tree α)) : Command α κ → Prop
  | .insert value => Files values value before Fault.abort outcome after
  | .tryInsert value => Files values value before id outcome after
  | .get k => outcome = .ok (.value? (Listing.find? k values))
  | .contains k => outcome = .ok (.flag (Listing.find? k values).isSome)
  | .erase k => outcome = .ok (.count (if (Listing.find? k values).isSome then 1 else 0))
  | .remove k => outcome = .ok (.value? (Listing.find? k values))
  | .eraseNode (some slot) =>
    if slot < before.container.size then
      ∃ x ∈ values, before.container.value? (some slot) = some x ∧ outcome = .ok (.value x)
    else outcome = .error (.panicked (.foreignNode (some slot))) ∧ after = before
  | .eraseNode none => outcome = .error (.panicked (.foreignNode none)) ∧ after = before
  | .clear => outcome = .ok .done
  | .iterate calls => outcome = .ok (.walk {
      taken := (List.range calls).map (values[·]?)
      remaining := values.length - calls
      rest := values.drop calls
      all := values })
  | .ask (.find k) => ∃ link, outcome = .ok (.answer (.link link)) ∧
      Points before.container link (Listing.find? k values)
  | .ask .first => ∃ link, outcome = .ok (.answer (.link link)) ∧ Points before.container link values.head?
  | .ask .last => ∃ link, outcome = .ok (.answer (.link link)) ∧ Points before.container link values.getLast?
  | _ => True

/-- The answer to a command agrees with the sorted list, and the tree then yields
the list that is left, in that order. -/
def Matches [Stored α] (values : List α) (command : Command α κ) (before : Host (Tree α))
    (step : Step (Tree α) (Reply α)) : Prop :=
  Agrees values before step.outcome step.after command ∧
    Sorted (next values command step.outcome) ∧
    step.after.container.size = (next values command step.outcome).length ∧
    step.after.container.toList = .ok (next values command step.outcome)

end Reference

section Commands
variable {host : Host (Tree α)} {values : List α}

theorem Represents.toList_eq {tree : Tree α} (represents : tree.Represents values) : tree.toList = .ok values := by
  obtain ⟨shape, sound, rfl⟩ := represents
  exact sound.linked.toList_eq

theorem Represents.size_eq {tree : Tree α} (represents : tree.Represents values) : tree.size = values.length := by
  obtain ⟨shape, sound, rfl⟩ := represents
  exact sound.size_eq

/-- So many calls on a cursor from the beginning yield the first values of the
list, and what is left of the cursor yields the others. -/
theorem Represents.cursor_eq {tree : Tree α} (represents : tree.Represents values) (calls : Nat) :
    ∃ start last, tree.cursor = .ok start ∧
      tree.advanceMany calls start = .ok ((List.range calls).map (values[·]?), last) ∧
      last.remaining = values.length - calls ∧ (last.next ≠ none → calls < values.length) ∧
      tree.drain last = .ok (values.drop calls) := by
  obtain ⟨shape, sound, rfl⟩ := represents
  have linked := sound.linked
  have length := linked.length_listing
  have start : tree.cursor = .ok ⟨shape.slots.head?, tree.size⟩ := by
    rw [cursor, linked.first_eq]
    rfl
  have enough : (shape.slots.drop calls).length < tree.stepLimit :=
    Nat.lt_of_le_of_lt (List.drop_sublist ..).length_le (Nat.lt_succ_of_le linked.length_le)
  refine ⟨_, _, start, advanceMany_eq [] shape.slots calls tree.size linked rfl, ?_, ?_, ?_⟩
  · have size := sound.size_eq
    simp only
    omega
  · intro more
    have left : calls < shape.slots.length := by simpa using more
    omega
  · rw [← linked.listing_drop (fun _ inside => inside)]
    exact drainWithin_eq (shape.slots.take calls) (shape.slots.drop calls) _ _ linked
      (List.take_append_drop ..).symm enough

theorem Represents.walk_eq {tree : Tree α} (represents : tree.Represents values) (calls : Nat) :
    tree.walk calls = .ok {
      taken := (List.range calls).map (values[·]?)
      remaining := values.length - calls
      rest := values.drop calls
      all := values } := by
  obtain ⟨start, last, begins, taken, remaining, -, rest⟩ := represents.cursor_eq calls
  simp only [walk, begins, taken, rest, represents.toList_eq, remaining, bind, Except.bind, pure, Except.pure]

/-- The link of a slot that holds a value points at it. -/
theorem Sound.points {tree : Tree α} {shape : Shape} {link : Link} (sound : tree.Sound shape)
    (inside : ∀ slot, link = some slot → slot ∈ shape.slots) :
    Reference.Points tree link (tree.value? link) := by
  refine ⟨rfl, ?_⟩
  cases link with
  | none => simp [value?, node?]
  | some slot =>
    obtain ⟨x, filled⟩ := sound.linked.filled (inside slot rfl)
    simp [value?_eq, filled]

section Allocating
variable [Stored α]

/-- A tree that is begun anew over an empty storage is empty. -/
theorem renewOver_leads (prepare : Op (Storage (Node α)) Unit) (host : Host (Tree α)) :
    Leads (renewOver prepare) host (fun _ after => after.container.Represents ([] : List α))
      (fun _ after => after.container = host.container) := by
  unfold renewOver
  refine current_then ?_
  rw [leads_bind, leads_build, leads_bind]
  refine (leads_trivial prepare).mono (fun _ made _ => ?_) fun _ _ _ => rfl
  refine current_then ?_
  rw [leads_require]
  split
  · rename_i empty
    rw [leads_replace]
    exact ⟨.leaf, sound_leaf rfl empty rfl, rfl⟩
  · exact rfl

variable [Std.TransOrd κ]

/-- A tree that is begun anew from a list files its values in turn. -/
theorem renewFrom_leads (given : List α) (host : Host (Tree α)) :
    Leads (renewFrom given) host
      (fun _ after => after.container.Represents (given.foldl (fun filed value => Listing.file value filed) []))
      (fun _ after => after.container = host.container) := by
  unfold renewFrom
  refine current_then ?_
  rw [leads_bind, leads_build]
  have fresh : (Tree.fresh host.container).Represents ([] : List α) := ⟨.leaf, sound_leaf rfl rfl rfl, rfl⟩
  have each : ∀ (value : α) (made : Host (Tree α)) (filed : List α), made.container.Represents filed →
      Leads (do let _ ← insert value : Op (Tree α) Unit) made
        (fun _ after => after.container.Represents (Listing.file value filed)) fun _ _ => True := by
    intro value made filed represents
    rw [leads_bind]
    exact (insert_files represents value).mono (fun _ _ filed => filed.1) fun _ _ _ => trivial
  exact (forM_leads (fun made filed => made.container.Represents filed) (fun filed value => Listing.file value filed)
    each given fresh).mono (fun _ _ represents => represents) fun _ _ _ => rfl

theorem eraseNode_agrees (represents : host.container.Represents values) (slot : Nat) :
    Leads (eraseNode (some slot)) host
      (fun x after => Reference.Agrees values host (.ok (.value x)) after (.eraseNode (some slot) : Command α κ) ∧
        after.container.Represents (Listing.drop (Keyed.key x) values))
      (fun fault after =>
        Reference.Agrees values host (.error fault) after (.eraseNode (some slot) : Command α κ) ∧
          after.container.Represents values) := by
  obtain ⟨shape, sound, rfl⟩ := represents
  by_cases live : slot < host.container.size
  · refine (eraseNode_sure sound live).weaken fun x after erased => ⟨?_, ?_⟩
    · obtain ⟨_, front, back, -, listing, -⟩ := erased.order
      simp only [Reference.Agrees, if_pos live]
      exact ⟨x, by simp [listing], (value?_eq slot).trans erased.filled, rfl⟩
    · exact erased.represents sound Std.ReflCmp.compare_self
  · unfold eraseNode
    refine current_then ?_
    rw [leads_bind, leads_require, if_neg live]
    simp only [Reference.Agrees, if_neg live]
    exact ⟨⟨trivial, trivial⟩, shape, sound, rfl⟩

variable [Shown κ] [Shown α]

/-- The ends of the order and the slot of a key are answered as the list has them,
and no question changes the tree. -/
theorem ask_agrees (represents : host.container.Represents values) (query : Query κ) :
    Leads (Command.ask query : Command α κ).perform host
      (fun answer after => Reference.Agrees values host (.ok answer) after (.ask query : Command α κ) ∧
        after.container.Represents (Reference.next values (.ask query : Command α κ) (.ok answer)))
      fun fault after => Reference.Agrees values host (.error fault) after (.ask query : Command α κ) ∧
        after.container.Represents (Reference.next values (.ask query : Command α κ) (.error fault)) := by
  cases query with
  | find k =>
    obtain ⟨shape, sound, rfl⟩ := represents
    obtain ⟨link, found, value, inside⟩ := sound.find?_eq k
    have reading : host.container.answer (.find k : Query κ) = .ok (.link link) := by
      rw [answer, found]
      rfl
    exact (leads_map _ _).mpr ((leads_look reading).mpr
      ⟨⟨link, rfl, value ▸ sound.points inside⟩, shape, sound, rfl⟩)
  | first =>
    obtain ⟨shape, sound, rfl⟩ := represents
    have inside : ∀ slot, shape.slots.head? = some slot → slot ∈ shape.slots := fun _ => List.mem_of_head?
    have reading : host.container.answer (.first : Query κ) = .ok (.link shape.slots.head?) := by
      rw [answer, sound.linked.first_eq]
      rfl
    exact (leads_map _ _).mpr ((leads_look reading).mpr
      ⟨⟨_, rfl, sound.linked.value_head ▸ sound.points inside⟩, shape, sound, rfl⟩)
  | last =>
    obtain ⟨shape, sound, rfl⟩ := represents
    have inside : ∀ slot, shape.slots.getLast? = some slot → slot ∈ shape.slots :=
      fun _ => List.mem_of_getLast?
    have reading : host.container.answer (.last : Query κ) = .ok (.link shape.slots.getLast?) := by
      rw [answer, sound.linked.last_eq]
      rfl
    exact (leads_map _ _).mpr ((leads_look reading).mpr
      ⟨⟨_, rfl, sound.linked.value_getLast ▸ sound.points inside⟩, shape, sound, rfl⟩)
  | _ =>
    exact (leads_map _ _).mpr (look_leads (fun _ => ⟨trivial, represents⟩) fun _ => ⟨trivial, represents⟩)

theorem perform_agrees (represents : host.container.Represents values) (command : Command α κ) :
    let step := command.perform.step host
    Reference.Agrees values host step.outcome step.after command ∧
      step.after.container.Represents (Reference.next values command step.outcome) := by
  refine (leads_iff_step command.perform fun outcome after => Reference.Agrees values host outcome after command ∧
    after.container.Represents (Reference.next values command outcome)).mp ?_
  cases command with
  | insert value =>
    refine (leads_map _ _).mpr ((insert_files represents value).mono ?_ ?_)
    · rintro slot after ⟨filed, holds, unchanged⟩
      exact ⟨⟨slot, rfl, holds, unchanged⟩, filed⟩
    · rintro fault after ⟨kept, absent, stuck⟩
      exact ⟨⟨kept, absent, stuck⟩, by rwa [kept]⟩
  | tryInsert value =>
    refine (leads_map _ _).mpr ((tryInsert_files represents value).mono ?_ ?_)
    · rintro slot after ⟨filed, holds, unchanged⟩
      exact ⟨⟨slot, rfl, holds, unchanged⟩, filed⟩
    · rintro fault after ⟨kept, absent, stuck⟩
      exact ⟨⟨kept, absent, fault, rfl, stuck⟩, by rwa [kept]⟩
  | get k =>
    obtain ⟨shape, sound, rfl⟩ := represents
    exact (leads_map _ _).mpr ((leads_look (sound.get?_eq k)).mpr ⟨rfl, shape, sound, rfl⟩)
  | contains k =>
    obtain ⟨shape, sound, rfl⟩ := represents
    exact (leads_map _ _).mpr ((leads_look (sound.contains_eq k)).mpr ⟨rfl, shape, sound, rfl⟩)
  | erase k =>
    refine (leads_map _ _).mpr ((erase_sure represents k).weaken ?_)
    rintro count after ⟨rfl, represents', -⟩
    exact ⟨rfl, represents'⟩
  | remove k =>
    refine (leads_map _ _).mpr ((remove_sure represents k).weaken ?_)
    rintro answer after ⟨rfl, represents', -⟩
    exact ⟨rfl, represents'⟩
  | eraseNode link =>
    cases link with
    | none => exact (leads_map _ _).mpr ⟨⟨rfl, rfl⟩, represents⟩
    | some slot => exact (leads_map _ _).mpr (eraseNode_agrees represents slot)
  | clear =>
    refine (leads_bind _ _).mpr ((clear_sure host).weaken ?_)
    rintro _ after ⟨represents', -⟩
    exact ⟨rfl, represents'⟩
  | iterate calls =>
    exact (leads_map _ _).mpr ((leads_look (represents.walk_eq calls)).mpr ⟨rfl, represents⟩)
  | text =>
    exact (leads_map _ _).mpr (look_leads (fun _ => ⟨trivial, represents⟩) fun _ => ⟨trivial, represents⟩)
  | renew =>
    refine (leads_bind _ _).mpr ((renewOver_leads (pure ()) host).mono ?_ ?_)
    · exact fun _ after represents' => ⟨trivial, represents'⟩
    · exact fun fault after kept => ⟨trivial, by rwa [kept]⟩
  | renewOver slots nodes =>
    refine (leads_bind _ _).mpr ((renewOver_leads (occupy slots nodes) host).mono ?_ ?_)
    · exact fun _ after represents' => ⟨trivial, represents'⟩
    · exact fun fault after kept => ⟨trivial, by rwa [kept]⟩
  | renewFrom given =>
    refine (leads_bind _ _).mpr ((renewFrom_leads given host).mono ?_ ?_)
    · exact fun _ after represents' => ⟨trivial, represents'⟩
    · exact fun fault after kept => ⟨trivial, by rwa [kept]⟩
  | ask query => exact ask_agrees represents query

/-- In every state of a run the tree stands for some list. -/
theorem states_represent (engine : Engine) (pool : Pool) (commands : List (Command α κ)) :
    ∀ host ∈ Session.states Command.perform commands ⟨{ nodes := ⟨engine, #[]⟩ }, pool⟩,
      ∃ values, host.container.Represents values := by
  have keeps : ∀ (command : Command α κ) (host : Host (Tree α)), (∃ values, host.container.Represents values) →
      ∃ values, (command.perform.step host).after.container.Represents values := by
    rintro command host ⟨values, represents⟩
    exact ⟨_, (perform_agrees represents command).2⟩
  exact Session.states_keep (fun host => ∃ values, Tree.Represents host.container values) keeps commands
    ⟨[], represents_nil engine⟩

/-- Every run of a tree follows the sorted list that takes the same commands. -/
theorem run_follows_list (engine : Engine) (pool : Pool) (commands : List (Command α κ)) :
    Session.Follows Command.perform (fun values command step => Reference.next values command step.outcome)
      Reference.Matches commands ⟨{ nodes := ⟨engine, #[]⟩ }, pool⟩ [] := by
  refine Session.follows_of_step (fun host values => host.container.Represents values) ?_ commands
    ⟨.leaf, sound_leaf rfl rfl rfl, rfl⟩
  intro command host values represents
  obtain ⟨agrees, represents'⟩ := perform_agrees represents command
  refine ⟨⟨agrees, ?_⟩, represents'⟩
  obtain ⟨shape, sound, listing⟩ := id represents'
  exact ⟨listing ▸ sound.sorted, listing ▸ sound.size_eq, represents'.toList_eq⟩

/-- Keys that differ in the case of a letter only are equal in the order. -/
theorem run_follows_list_caseless : Std.TransOrd Caseless ∧
    Session.Follows Command.perform (fun values command step => Reference.next values command step.outcome)
      Reference.Matches
      [.insert (⟨"b"⟩, (1 : Int64)), .insert (⟨"a"⟩, 2), .insert (⟨"B"⟩, 3), .ask (.find ⟨"b"⟩), .eraseNode (some 0),
        .erase ⟨"A"⟩]
      ⟨{ nodes := ⟨.heap .a 0 0, #[]⟩ }, ⟨⟨.unlimited, 0, []⟩, ⟨.unlimited, 0, []⟩⟩⟩ ([] : List (Caseless × Int64)) :=
  ⟨inferInstance, run_follows_list (.heap .a 0 0) _ _⟩

end Allocating

end Commands

end Tree

end Containers
