import Containers.Map.Command
import Containers.Proofs.TreeRuns

/-! Runs of maps. A map is a tree of pairs, but filing a value under a key that
is present replaces the value there; the key keeps its first spelling. -/
namespace Containers.Map
variable {κ ν : Type} [Ord κ]

namespace Reference

/-- The sorted entries after a command, given what the map answered. -/
def next (entries : List (κ × ν)) : Command κ ν → Except Fault (Reply κ ν) → List (κ × ν)
  | .insert k value, .ok _ => Listing.store k value entries
  | .tryInsert k value, .ok _ => Listing.store k value entries
  | .setValue k value, .ok _ => Listing.overwrite k value entries
  | .remove k, .ok _ => Listing.drop k entries
  | .clear, .ok _ => []
  | .renew, .ok _ => []
  | .renewFrom pairs, .ok _ => pairs.foldl (fun stored pair => Listing.store pair.1 pair.2 stored) []
  | _, _ => entries

/-- Filing answers the value that was replaced, and under a key that is present it
asks no allocator and changes nothing but that value; it fails only for want of room
for an absent key, and then the map is as before. -/
def Stores [Stored κ] [Stored ν] (entries : List (κ × ν)) (k : κ) (before : Host (Map κ ν))
    (lift : Fault → Fault) : Except Fault (Reply κ ν) → Host (Map κ ν) → Prop
  | .ok reply, after => reply = .value? ((Listing.find? k entries).map Prod.snd) ∧
      ((Listing.find? k entries).isSome →
        before.container.Revalued after.container ∧ after.pool = before.pool)
  | .error fault, after => after.container = before.container ∧ Listing.find? k entries = none ∧
      ∃ cause, fault = lift cause ∧ Vector.Stuck ⟨before.container.nodes, before.pool⟩ cause

/-- A map that holds some of the pairs has no room for an absent key. -/
def Crowded (κ ν : Type) [Ord κ] [Stored κ] [Stored ν] (fault : Fault) : Prop :=
  ∃ (made : Host (Map κ ν)) (earlier : List (κ × ν)) (k : κ), Tree.Represents made.container earlier ∧
    Listing.find? k earlier = none ∧
    ∃ cause, fault = Fault.abort cause ∧ Vector.Stuck ⟨made.container.nodes, made.pool⟩ cause

/-- Collecting pairs files each of them under its key, so that a key keeps the first
spelling and has the last value; it fails only for want of room, and then the map
from before is still there. -/
def Collects [Stored κ] [Stored ν] (pairs : List (κ × ν)) (before : Host (Map κ ν)) :
    Except Fault (Reply κ ν) → Host (Map κ ν) → Prop
  | .ok reply, after => reply = .done ∧ ∃ stored, Tree.toList after.container = .ok stored ∧
      ∀ k, Listing.find? k stored = (Listing.find? k pairs).bind fun first =>
        (Listing.find? k pairs.reverse).map fun last => (first.1, last.2)
  | .error fault, after => after.container = before.container ∧ Crowded κ ν fault

/-- What the answer to a command has to do with the sorted entries. -/
def Agrees [Stored κ] [Stored ν] (entries : List (κ × ν)) (before : Host (Map κ ν))
    (outcome : Except Fault (Reply κ ν)) (after : Host (Map κ ν)) : Command κ ν → Prop
  | .insert k _ => Stores entries k before Fault.abort outcome after
  | .tryInsert k _ => Stores entries k before id outcome after
  | .get k => outcome = .ok (.value? ((Listing.find? k entries).map Prod.snd))
  | .setValue k _ => outcome = .ok (.value? ((Listing.find? k entries).map Prod.snd)) ∧
      before.container.Revalued after.container ∧ after.pool = before.pool
  | .contains k => outcome = .ok (.flag (Listing.find? k entries).isSome)
  | .remove k => outcome = .ok (.value? ((Listing.find? k entries).map Prod.snd))
  | .extreme .left => outcome = .ok (.pair? entries.head?)
  | .extreme .right => outcome = .ok (.pair? entries.getLast?)
  | .clear => outcome = .ok .done
  | .iterate calls => outcome = .ok (.walk {
      entries := (List.range calls).map (entries[·]?)
      keys := (List.range calls).map ((entries.map Prod.fst)[·]?)
      values := (List.range calls).map ((entries.map Prod.snd)[·]?)
      entriesLeft := entries.length - calls
      keysLeft := entries.length - calls
      valuesLeft := entries.length - calls
      all := entries })
  | .renewFrom pairs => Collects pairs before outcome after
  | _ => True

/-- The answer to a command agrees with the sorted entries, and the map then yields
the entries that are left, in that order. -/
def Matches [Stored κ] [Stored ν] (entries : List (κ × ν)) (command : Command κ ν) (before : Host (Map κ ν))
    (step : Step (Map κ ν) (Reply κ ν)) : Prop :=
  Agrees entries before step.outcome step.after command ∧
    Sorted (next entries command step.outcome) ∧
    Tree.size step.after.container = (next entries command step.outcome).length ∧
    Tree.toList step.after.container = .ok (next entries command step.outcome)

end Reference

section Commands
variable {host : Host (Map κ ν)} {entries : List (κ × ν)}

theorem walk_eq {map : Map κ ν} (represents : Tree.Represents map entries) (calls : Nat) :
    map.walk calls = .ok {
      entries := (List.range calls).map (entries[·]?)
      keys := (List.range calls).map ((entries.map Prod.fst)[·]?)
      values := (List.range calls).map ((entries.map Prod.snd)[·]?)
      entriesLeft := entries.length - calls
      keysLeft := entries.length - calls
      valuesLeft := entries.length - calls
      all := entries } := by
  obtain ⟨start, last, begins, taken, remaining, -⟩ := represents.cursor_eq calls
  have projected : ∀ {β : Type} (f : κ × ν → β), ((List.range calls).map (entries[·]?)).map (Option.map f) =
      (List.range calls).map ((entries.map f)[·]?) := fun f => by
    simp only [List.map_map, Function.comp_def, List.getElem?_map]
  simp only [walk, begins, taken, represents.toList_eq, remaining, projected, bind, Except.bind, pure,
    Except.pure]

variable [Std.TransOrd κ] [Stored κ] [Stored ν]

/-- A map that is begun anew from a list files its pairs in turn. -/
theorem renewFrom_leads (pairs : List (κ × ν)) (host : Host (Map κ ν)) :
    Leads (renewFrom pairs) host
      (fun _ after => Tree.Represents after.container
        (pairs.foldl (fun stored pair => Listing.store pair.1 pair.2 stored) []))
      (fun fault after => Reference.Collects pairs host (.error fault) after) := by
  unfold renewFrom
  apply current_then
  rw [leads_bind, leads_build]
  have fresh : (Tree.fresh host.container).Represents ([] : List (κ × ν)) := Tree.represents_nil _
  have each : ∀ (pair : κ × ν) (made : Host (Map κ ν)) (stored : List (κ × ν)),
      Tree.Represents made.container stored →
      Leads (do let _ ← insert pair.1 pair.2 : Op (Map κ ν) Unit) made
        (fun _ after => Tree.Represents after.container (Listing.store pair.1 pair.2 stored))
        (fun fault _ => Reference.Crowded κ ν fault) := by
    intro pair made stored represents
    apply (leads_bind _ _).mpr
    exact (insert_stores represents pair.1 pair.2).mono (fun _ _ stores => stores.2.1)
      fun _ _ ⟨_, absent, stuck⟩ => ⟨made, stored, pair.1, represents, absent, stuck⟩
  refine Leads.mono (forM_leads (fun made stored => Tree.Represents made.container stored)
    (fun stored pair => Listing.store pair.1 pair.2 stored) each pairs fresh) ?_ fun _ _ crowded => ⟨rfl, crowded⟩
  exact fun _ made represents => (leads_replace made.container).mpr represents

variable [Shown κ] [Shown ν]

theorem perform_agrees (represents : Tree.Represents host.container entries) (command : Command κ ν) :
    let step := command.perform.step host
    Reference.Agrees entries host step.outcome step.after command ∧
      Tree.Represents step.after.container (Reference.next entries command step.outcome) := by
  refine (leads_iff_step command.perform fun outcome after => Reference.Agrees entries host outcome after command ∧
    Tree.Represents after.container (Reference.next entries command outcome)).mp ?_
  cases command with
  | insert k value =>
    refine (leads_map _ _).mpr ((insert_stores represents k value).mono ?_ ?_)
    · rintro answer after ⟨rfl, stored, revalues⟩
      exact ⟨⟨rfl, revalues⟩, stored⟩
    · rintro fault after ⟨kept, absent, stuck⟩
      exact ⟨⟨kept, absent, stuck⟩, by rwa [kept]⟩
  | tryInsert k value =>
    refine (leads_map _ _).mpr ((tryInsert_stores represents k value).mono ?_ ?_)
    · rintro answer after ⟨rfl, stored, revalues⟩
      exact ⟨⟨rfl, revalues⟩, stored⟩
    · rintro fault after ⟨kept, absent, stuck⟩
      exact ⟨⟨kept, absent, fault, rfl, stuck⟩, by rwa [kept]⟩
  | get k =>
    obtain ⟨shape, sound, rfl⟩ := represents
    have reading : get? host.container k = .ok _ := congrArg (Option.map Prod.snd <$> ·) (sound.get?_eq k)
    exact (leads_map _ _).mpr ((leads_look reading).mpr ⟨rfl, shape, sound, rfl⟩)
  | setValue k value =>
    refine (leads_map _ _).mpr ((setValue_sure represents k value).weaken ?_)
    rintro answer after ⟨rfl, represents', revalues, -⟩
    exact ⟨⟨rfl, revalues⟩, represents'⟩
  | contains k =>
    obtain ⟨shape, sound, rfl⟩ := represents
    exact (leads_map _ _).mpr ((leads_look (sound.contains_eq k)).mpr ⟨rfl, shape, sound, rfl⟩)
  | remove k =>
    refine (leads_map _ _).mpr ((remove_sure represents k).weaken ?_)
    rintro answer after ⟨rfl, represents'⟩
    exact ⟨rfl, represents'⟩
  | extreme side =>
    obtain ⟨shape, sound, rfl⟩ := represents
    cases side with
    | left =>
      have reading : extreme? host.container .left = .ok (Tree.value? host.container shape.slots.head?) :=
        congrArg (Tree.value? host.container <$> ·) sound.linked.first_eq
      rw [sound.linked.value_head] at reading
      exact (leads_map _ _).mpr ((leads_look reading).mpr ⟨rfl, shape, sound, rfl⟩)
    | right =>
      have reading : extreme? host.container .right = .ok (Tree.value? host.container shape.slots.getLast?) :=
        congrArg (Tree.value? host.container <$> ·) sound.linked.last_eq
      rw [sound.linked.value_getLast] at reading
      exact (leads_map _ _).mpr ((leads_look reading).mpr ⟨rfl, shape, sound, rfl⟩)
  | clear =>
    refine (leads_bind _ _).mpr ((Tree.clear_sure host).weaken ?_)
    rintro _ after ⟨represents', -⟩
    exact ⟨rfl, represents'⟩
  | iterate calls =>
    exact (leads_map _ _).mpr ((leads_look (walk_eq represents calls)).mpr ⟨rfl, represents⟩)
  | renew =>
    refine (leads_bind _ _).mpr ((Tree.renewOver_leads (pure ()) host).mono ?_ ?_)
    · exact fun _ after represents' => ⟨trivial, represents'⟩
    · exact fun fault after kept => ⟨trivial, by rwa [kept]⟩
  | renewFrom pairs =>
    refine (leads_bind _ _).mpr ((renewFrom_leads pairs host).mono ?_ ?_)
    · exact fun _ after represents' =>
        ⟨⟨rfl, _, represents'.toList_eq, fun k => Listing.find?_stored k pairs⟩, represents'⟩
    · rintro fault after ⟨kept, crowded⟩
      exact ⟨⟨kept, crowded⟩, by rwa [kept]⟩
  | text | ask _ =>
    exact (leads_map _ _).mpr (look_leads (fun _ => ⟨trivial, represents⟩) fun _ => ⟨trivial, represents⟩)

/-- In every state of a run the map stands for some entries. -/
theorem states_represent (engine : Engine) (pool : Pool) (commands : List (Command κ ν)) :
    ∀ host ∈ Session.states Command.perform commands ⟨{ nodes := ⟨engine, #[]⟩ }, pool⟩,
      ∃ entries, Tree.Represents host.container entries := by
  have keeps : ∀ (command : Command κ ν) (host : Host (Map κ ν)),
      (∃ entries, Tree.Represents host.container entries) →
      ∃ entries, Tree.Represents (command.perform.step host).after.container entries := by
    rintro command host ⟨entries, represents⟩
    exact ⟨_, (perform_agrees represents command).2⟩
  exact Session.states_keep (fun host => ∃ entries, Tree.Represents host.container entries) keeps commands
    ⟨[], Tree.represents_nil engine⟩

/-- Every run of a map follows the sorted list of entries that takes the same commands. -/
theorem run_follows_entries (engine : Engine) (pool : Pool) (commands : List (Command κ ν)) :
    Session.Follows Command.perform (fun entries command step => Reference.next entries command step.outcome)
      Reference.Matches commands ⟨{ nodes := ⟨engine, #[]⟩ }, pool⟩ [] := by
  refine Session.follows_of_step (fun host entries => Tree.Represents host.container entries) ?_ commands
    (Tree.represents_nil engine)
  intro command host entries represents
  obtain ⟨agrees, represents'⟩ := perform_agrees represents command
  refine ⟨⟨agrees, ?_⟩, represents'⟩
  obtain ⟨shape, sound, listing⟩ := id represents'
  exact ⟨listing ▸ sound.sorted, listing ▸ sound.size_eq, represents'.toList_eq⟩

/-- Keys that differ in the case of a letter only are equal in the order. -/
theorem run_follows_entries_caseless : Std.TransOrd Caseless ∧
    Session.Follows Command.perform (fun entries command step => Reference.next entries command step.outcome)
      Reference.Matches
      [.insert ⟨"b"⟩ 1, .insert ⟨"a"⟩ 2, .tryInsert ⟨"B"⟩ 3, .setValue ⟨"A"⟩ 4, .iterate 3, .remove ⟨"B"⟩,
        .renewFrom [(⟨"k"⟩, 1), (⟨"K"⟩, 2)]]
      ⟨{ nodes := ⟨.heap .a 0 0, #[]⟩ }, ⟨⟨.unlimited, 0, []⟩, ⟨.unlimited, 0, []⟩⟩⟩ ([] : List (Caseless × Int64)) :=
  ⟨inferInstance, run_follows_entries (.heap .a 0 0) _ _⟩

end Commands

end Containers.Map
