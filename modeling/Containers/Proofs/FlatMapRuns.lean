import Containers.Proofs.Gathering
import Containers.Proofs.VectorRuns

/-! Runs of sorted maps. A map on a sorted run does what a sorted list of entries does that
is given the same commands. Of pairs with equal keys the list keeps the first, no matter
whether they came one after another or all at once. -/
namespace Containers

namespace FlatMap
variable {κ ν : Type} [Ord κ]

namespace Reference
open Listing

/-- What a command leaves of the sorted entries and what it answers, or the fault of the
condition that it breaks. -/
def apply (entries : List (κ × ν)) : Command κ ν → Except Fault (List (κ × ν) × Reply κ ν)
  | .insert k value => .ok (file (k, value) entries, .inserted (countBelow k entries) (find? k entries).isNone)
  | .tryInsert k value => .ok (file (k, value) entries, .inserted (countBelow k entries) (find? k entries).isNone)
  | .find k => .ok (entries, .place? ((find? k entries).map fun _ => countBelow k entries))
  | .get k => .ok (entries, .value? ((find? k entries).map Prod.snd))
  | .setValue k value => .ok (overwrite k value entries, .value? ((find? k entries).map Prod.snd))
  | .erase k => .ok (drop k entries, .place (if (find? k entries).isSome then 1 else 0))
  | .eraseAt position =>
    (Vector.Reference.remove entries position).map fun (left, _) => (left, .place position)
  | .remove k => .ok (drop k entries, .pair? (find? k entries))
  | .lowerBound k => .ok (entries, .place (countBelow k entries))
  | .upperBound k => .ok (entries, .place (countUpTo k entries))
  | .isEmpty => .ok (entries, .flag entries.isEmpty)
  | .iterate => .ok (entries, .walks entries.toArray)
  | .clear => .ok ([], .done)
  | .renewFrom pairs => .ok (filed pairs, .done)

/-- The entries after a command, given how it ended. -/
def next (entries : List (κ × ν)) (command : Command κ ν) (outcome : Except Fault (Reply κ ν)) : List (κ × ν) :=
  Vector.leaves entries (apply entries command) outcome

/-- The command is carried out and finds nothing to change. -/
def Idle (entries : List (κ × ν)) : Command κ ν → Prop
  | .insert k _ => (find? k entries).isSome
  | .tryInsert k _ => (find? k entries).isSome
  | .setValue k _ => find? k entries = none
  | .erase k => find? k entries = none
  | .remove k => find? k entries = none
  | .eraseAt _ => False
  | .clear => False
  | .renewFrom _ => False
  | _ => True

variable [Stored κ] [Stored ν]

/-- There is no room for a key that is absent, and nothing changed. -/
def Unfiled (entries : List (κ × ν)) (k : κ) (before : Host (FlatMap κ ν)) (fault : Fault)
    (after : Host (FlatMap κ ν)) : Prop :=
  find? k entries = none ∧ Vector.Unpushed before fault after

/-- The growth that a command asks for is not granted; what is left then. -/
def Ungranted (entries : List (κ × ν)) (before : Host (FlatMap κ ν)) :
    Command κ ν → Fault → Host (FlatMap κ ν) → Prop
  | .insert k _ => Vector.Aborting (Unfiled entries k before)
  | .tryInsert k _ => Unfiled entries k before
  | .renewFrom pairs =>
    Vector.Reference.Aside before (Vector.Aborting (Vector.Stalled (Vector.Reference.anew before) pairs pairs.length))
  | _ => fun _ _ => False

/-- A step does what the sorted entries do, the map then holds exactly the entries that are
left, and a command that finds nothing to change leaves everything as it is. The bounds that
are answered are one apart if the key is present, and then its pair stands between them. -/
structure Matches (entries : List (κ × ν)) (command : Command κ ν) (before : Host (FlatMap κ ν))
    (step : Step (FlatMap κ ν) (Reply κ ν)) : Prop where
  settles : Vector.Settles before (apply entries command) (Ungranted entries before command) step
  holds : Vector.Holds step.after.container (next entries command step.outcome)
  sorted : Sorted (next entries command step.outcome)
  idle : Idle entries command → step.after = before
  bounds : ∀ k, countUpTo k entries = countBelow k entries + if (find? k entries).isSome then 1 else 0
  stands : ∀ k pair, find? k entries = some pair → before.container.items[countBelow k entries]? = some pair

end Reference

section Order
variable [Std.TransOrd κ] {entries left : List (κ × ν)}

/-- Every edit keeps the keys in order. -/
theorem Reference.sorted_apply {command : Command κ ν} {reply : Reply κ ν} (sorted : Sorted entries)
    (edits : Reference.apply entries command = .ok (left, reply)) : Sorted left := by
  cases command with
  | insert k value | tryInsert k value =>
    cases edits
    exact Listing.sorted_file sorted (k, value)
  | setValue k value =>
    cases edits
    exact Listing.sorted_overwrite sorted k value
  | erase k | remove k =>
    cases edits
    exact sorted.sublist List.filter_sublist
  | eraseAt position =>
    simp only [Reference.apply, Vector.Reference.remove] at edits
    split at edits
    · cases edits
      exact sorted.sublist (List.eraseIdx_sublist ..)
    · cases edits
  | clear =>
    cases edits
    exact .nil
  | renewFrom pairs =>
    cases edits
    exact Listing.sorted_filed pairs
  | _ =>
    cases edits
    exact sorted

end Order

section Searches
variable [Std.TransOrd κ] {map : FlatMap κ ν} {host : Host (FlatMap κ ν)} {entries : List (κ × ν)}

/-- A key is looked up at the place of the lower bound: the pair there has an equal key if any has. -/
theorem findIdx?_eq (list : map.items.toList = entries) (sorted : Sorted entries) (k : κ) :
    map.findIdx? k = (Listing.find? k entries).map fun _ => Listing.countBelow k entries := by
  have inOrder : Listing.InOrder map.items.toList := list ▸ Listing.inOrder_of_sorted sorted
  simp only [findIdx?, Flat.lowerBound_eq inOrder, ← Array.getElem?_toList, list]
  cases found : Listing.find? k entries with
  | some pair =>
    have matched := List.find?_some found
    have same : compare pair.1 k = .eq := of_decide_eq_true matched
    simp only [Listing.getElem?_countBelow sorted found, same, ↓reduceIte, Option.map_some]
  | none =>
    split
    · rename_i pair next
      have differs : ¬ compare pair.1 k = .eq := fun same =>
        List.find?_eq_none.mp found pair (List.mem_of_getElem? next) (decide_eq_true same)
      rw [if_neg differs]
      rfl
    · rfl

theorem get?_eq (list : map.items.toList = entries) (sorted : Sorted entries) (k : κ) :
    map.get? k = (Listing.find? k entries).map Prod.snd := by
  rw [get?, findIdx?_eq list sorted]
  cases found : Listing.find? k entries with
  | some pair =>
    have stands : map.items[Listing.countBelow k entries]? = some pair := by
      rw [← Array.getElem?_toList, list, Listing.getElem?_countBelow sorted found]
    simp only [Option.map_some, Option.bind_some, stands]
  | none => rfl

theorem setValue_meets {ungranted : Fault → Host (FlatMap κ ν) → Prop} (holds : Vector.Holds host.container entries)
    (sorted : Sorted entries) (k : κ) (value : ν) :
    Vector.Meets (setValue k value) host
      (.ok (Listing.overwrite k value entries, (Listing.find? k entries).map Prod.snd)) ungranted := by
  unfold setValue
  apply Vector.meets_current
  rw [findIdx?_eq holds.items_eq sorted]
  cases found : Listing.find? k entries with
  | some pair =>
    have stands : host.container.items[Listing.countBelow k entries]? = some pair := by
      rw [holds.getElem?, Listing.getElem?_countBelow sorted found]
    simp only [Option.map_some, stands, ← Listing.modify_countBelow sorted found value]
    exact Vector.meets_return (some pair.2) (Vector.modify_meets holds _ _)
  | none =>
    rw [Listing.overwrite_absent found]
    exact Vector.meets_answer holds

theorem remove_meets {ungranted : Fault → Host (FlatMap κ ν) → Prop} (holds : Vector.Holds host.container entries)
    (sorted : Sorted entries) (k : κ) :
    Vector.Meets (remove k) host (.ok (Listing.drop k entries, Listing.find? k entries)) ungranted := by
  unfold remove
  apply Vector.meets_current
  rw [findIdx?_eq holds.items_eq sorted]
  cases found : Listing.find? k entries with
  | some pair =>
    have taken : Vector.Meets (some <$> Vector.remove (Listing.countBelow k entries)) host _ ungranted :=
      Vector.meets_map some (Vector.remove_meets holds _)
    rw [Vector.Reference.remove, Listing.getElem?_countBelow sorted found] at taken
    rw [← Listing.eraseIdx_countBelow sorted found]
    exact taken
  | none =>
    rw [Listing.drop_absent found]
    exact Vector.meets_answer holds

theorem erase_meets {ungranted : Fault → Host (FlatMap κ ν) → Prop} (holds : Vector.Holds host.container entries)
    (sorted : Sorted entries) (k : κ) :
    Vector.Meets (erase k) host
      (.ok (Listing.drop k entries, if (Listing.find? k entries).isSome then 1 else 0)) ungranted := by
  have counts : (erase k : Op (FlatMap κ ν) Nat) =
      (fun answer : Option (κ × ν) => if answer.isSome then 1 else 0) <$> remove k := by
    simp only [erase, remove, map_bind]
    congr 1
    funext map
    cases map.findIdx? k <;> simp [Vector.erase]
  rw [counts]
  exact Vector.meets_map _ (remove_meets holds sorted k)

variable [Stored κ] [Stored ν] [BEq κ] [Std.LawfulBEqOrd κ]

omit [Std.TransOrd κ] in
/-- A key that equals the one at the place of the lower bound is the one that is looked up. -/
theorem tryInsert_eq (k : κ) (value : ν) : (tryInsert k value : Op (FlatMap κ ν) (Nat × Bool)) = do
    let map ← Op.current
    match map.findIdx? k with
    | some i => return (i, false)
    | none =>
      let i ← Vector.tryInsert (Flat.lowerBound k map.items) (k, value)
      return (i, true) := by
  unfold tryInsert
  congr 1
  funext map
  simp only [findIdx?]
  cases map.items[Flat.lowerBound k map.items]? with
  | none => rfl
  | some pair =>
    by_cases same : compare pair.1 k = .eq
    · simp [same, Std.LawfulBEqCmp.compare_eq_iff_beq.mp same]
    · have unequal : (pair.1 == k) = false :=
        Bool.eq_false_iff.mpr fun equal => same (Std.LawfulBEqCmp.compare_eq_iff_beq.mpr equal)
      simp [same, unequal]

theorem tryInsert_meets (holds : Vector.Holds host.container entries) (sorted : Sorted entries) (k : κ) (value : ν) :
    Vector.Meets (tryInsert k value) host
      (.ok (Listing.file (k, value) entries, Listing.countBelow k entries, (Listing.find? k entries).isNone))
      (Reference.Unfiled entries k host) := by
  have inOrder : Listing.InOrder host.container.items.toList := holds.items_eq ▸ Listing.inOrder_of_sorted sorted
  rw [tryInsert_eq]
  apply Vector.meets_current
  rw [findIdx?_eq holds.items_eq sorted, Flat.lowerBound_eq inOrder, holds.items_eq]
  cases found : Listing.find? k entries with
  | some pair =>
    have kept : Listing.file (k, value) entries = entries := Listing.file_present (k, value) sorted found
    rw [kept]
    exact Vector.meets_answer holds
  | none =>
    have within : Listing.countBelow k entries ≤ entries.length := List.countP_le_length
    have filed : entries.take (Listing.countBelow k entries) ++
        (k, value) :: entries.drop (Listing.countBelow k entries) = Listing.file (k, value) entries :=
      Listing.file_absent (k, value) sorted found
    have put := Vector.tryInsert_meets holds (Listing.countBelow k entries) (k, value)
    rw [Vector.Reference.insert, if_pos within, filed] at put
    have put' := (Vector.meets_map (fun place => (place, true)) put).imp
      fun fault after unpushed => (⟨found, unpushed⟩ : Reference.Unfiled entries k host fault after)
    rwa [map_eq_pure_bind] at put'

theorem insert_meets (holds : Vector.Holds host.container entries) (sorted : Sorted entries) (k : κ) (value : ν) :
    Vector.Meets (insert k value) host
      (.ok (Listing.file (k, value) entries, Listing.countBelow k entries, (Listing.find? k entries).isNone))
      (Vector.Aborting (Reference.Unfiled entries k host)) := by
  apply Vector.meets_orAbort (tryInsert_meets holds sorted k value)
  intro fault impossible
  cases impossible

theorem renewFrom_meets (host : Host (FlatMap κ ν)) (pairs : List (κ × ν)) :
    Vector.Meets (renewFrom pairs) host (.ok (Listing.filed pairs, ()))
      (Vector.Reference.Aside host
        (Vector.Aborting (Vector.Stalled (Vector.Reference.anew host) pairs pairs.length))) := by
  have gathered : (Flat.dropRepeats (Flat.sortByKey pairs.toArray)).toList = Listing.filed pairs :=
    Flat.toList_dropRepeats_sortByKey pairs.toArray
  exact Vector.refill_meets host gathered (Listing.length_filed_le pairs)

end Searches

section Commands
variable [Stored κ] [Stored ν] [BEq κ] {host : Host (FlatMap κ ν)} {entries : List (κ × ν)}

/-- A command that only reads. -/
theorem reading_meets {command : Command κ ν} (holds : Vector.Holds host.container entries)
    (read : FlatMap κ ν → Reply κ ν) (performs : command.perform = do return read (← Op.current))
    (applies : Reference.apply entries command = .ok (entries, read host.container)) :
    Vector.Meets command.perform host (Reference.apply entries command)
      (Reference.Ungranted entries host command) := by
  rw [performs, applies]
  exact Vector.meets_current (Vector.meets_answer holds)

omit [BEq κ] in
theorem Reference.Ungranted.kept {command : Command κ ν} {fault : Fault} {after : Host (FlatMap κ ν)}
    (reason : Reference.Ungranted entries host command fault after) : after.container = host.container := by
  cases command with
  | insert k value =>
    obtain ⟨cause, -, -, unpushed⟩ := reason
    exact unpushed.1
  | tryInsert k value => exact reason.2.1
  | renewFrom pairs => exact reason.1
  | _ => exact reason.elim

variable [Std.TransOrd κ] [Std.LawfulBEqOrd κ]

theorem perform_meets (holds : Vector.Holds host.container entries) (sorted : Sorted entries) (command : Command κ ν) :
    Vector.Meets command.perform host (Reference.apply entries command)
      (Reference.Ungranted entries host command) := by
  have inOrder : Listing.InOrder host.container.items.toList := holds.items_eq ▸ Listing.inOrder_of_sorted sorted
  cases command with
  | insert k value =>
    have put := Vector.meets_map (fun answer => (.inserted answer.1 answer.2 : Reply κ ν))
      (insert_meets holds sorted k value)
    rwa [map_eq_pure_bind] at put
  | tryInsert k value =>
    have put := Vector.meets_map (fun answer => (.inserted answer.1 answer.2 : Reply κ ν))
      (tryInsert_meets holds sorted k value)
    rwa [map_eq_pure_bind] at put
  | find k =>
    apply reading_meets holds (fun map => .place? (map.findIdx? k)) rfl
    rw [findIdx?_eq holds.items_eq sorted]
    rfl
  | get k =>
    apply reading_meets holds (fun map => .value? (map.get? k)) rfl
    rw [get?_eq holds.items_eq sorted]
    rfl
  | setValue k value => exact Vector.meets_map Reply.value? (setValue_meets holds sorted k value)
  | erase k => exact Vector.meets_map Reply.place (erase_meets holds sorted k)
  | eraseAt position =>
    have applies : Reference.apply entries (.eraseAt position : Command κ ν) =
        ((Vector.Reference.remove entries position).map fun (left, _) => (left, position)).map
          fun (left, answer) => (left, .place answer) := by
      simp only [Reference.apply]
      cases Vector.Reference.remove entries position <;> rfl
    rw [applies]
    exact Vector.meets_map Reply.place (Vector.erase_meets holds position)
  | remove k => exact Vector.meets_map Reply.pair? (remove_meets holds sorted k)
  | lowerBound k =>
    apply reading_meets holds (fun map => .place (Flat.lowerBound k map.items)) rfl
    rw [Flat.lowerBound_eq inOrder, holds.items_eq]
    rfl
  | upperBound k =>
    apply reading_meets holds (fun map => .place (Flat.upperBound k map.items)) rfl
    rw [Flat.upperBound_eq inOrder, holds.items_eq]
    rfl
  | isEmpty =>
    have empty : decide (entries.length = 0) = entries.isEmpty := by cases entries <;> simp
    apply reading_meets holds (fun map => .flag (map.size = 0)) rfl
    rw [holds.length, empty]
    rfl
  | iterate =>
    apply reading_meets holds (fun map => .walks map.items) rfl
    rw [holds.toArray]
    rfl
  | clear => exact Vector.meets_return Reply.done (Vector.truncate_meets holds 0)
  | renewFrom pairs => exact Vector.meets_return Reply.done (renewFrom_meets host pairs)

theorem perform_idle (holds : Vector.Holds host.container entries) (sorted : Sorted entries) {command : Command κ ν}
    (idle : Reference.Idle entries command) : (command.perform.step host).after = host := by
  have search := findIdx?_eq holds.items_eq sorted
  apply (leads_iff_step command.perform fun _ after => after = host).mp
  cases command with
  | insert k value =>
    obtain ⟨pair, found⟩ := Option.isSome_iff_exists.mp idle
    rw [Command.perform, leads_bind, insert, leads_orAbort, tryInsert_eq]
    apply current_then
    rw [search, found]
    rfl
  | tryInsert k value =>
    obtain ⟨pair, found⟩ := Option.isSome_iff_exists.mp idle
    rw [Command.perform, leads_bind, tryInsert_eq]
    apply current_then
    rw [search, found]
    rfl
  | setValue k value =>
    have absent : Listing.find? k entries = none := idle
    rw [Command.perform, leads_map]
    apply current_then
    rw [search, absent]
    rfl
  | erase k | remove k =>
    have absent : Listing.find? k entries = none := idle
    rw [Command.perform, leads_map]
    apply current_then
    rw [search, absent]
    rfl
  | eraseAt _ | clear | renewFrom _ => exact idle.elim
  | _ => rfl

theorem perform_matches (holds : Vector.Holds host.container entries) (sorted : Sorted entries)
    (command : Command κ ν) : Reference.Matches entries command host (command.perform.step host) := by
  have settles := (perform_meets holds sorted command).settles
  have kept : ∀ fault after, Reference.Ungranted entries host command fault after →
      after.container = host.container := fun _ _ reason => reason.kept
  constructor
  · exact settles
  · exact settles.holds holds kept
  · unfold Reference.next Vector.leaves
    split
    · rename_i left reply edits ended
      exact Reference.sorted_apply sorted edits
    · exact sorted
  · exact perform_idle holds sorted
  · exact Listing.countUpTo_of_sorted sorted
  · intro k pair found
    rw [holds.getElem?, Listing.getElem?_countBelow sorted found]

/-- Every run of a sorted map follows the sorted list of entries that keeps the first pair of
every key. -/
theorem run_follows_first_pairs (engine : Engine) (pool : Pool) (commands : List (Command κ ν)) :
    Session.Follows Command.perform (fun entries command step => Reference.next entries command step.outcome)
      Reference.Matches commands ⟨⟨engine, #[]⟩, pool⟩ [] := by
  apply Session.follows_of_step (fun host entries => Vector.Holds host.container entries ∧ Sorted entries)
  · rintro command host entries ⟨holds, sorted⟩
    have agrees := perform_matches holds sorted command
    exact ⟨agrees, agrees.holds, agrees.sorted⟩
  · exact ⟨Vector.holds_empty engine, .nil⟩

/-- Keys that differ in the case of a letter only are equal in the order. -/
theorem run_follows_first_pairs_caseless : Std.TransOrd Caseless ∧ Std.LawfulBEqOrd Caseless ∧
    Session.Follows Command.perform (fun entries command step => Reference.next entries command step.outcome)
      Reference.Matches
      [.renewFrom [(⟨"b"⟩, 1), (⟨"a"⟩, 2), (⟨"B"⟩, 3)], .insert ⟨"A"⟩ 4, .setValue ⟨"B"⟩ 5, .tryInsert ⟨"c"⟩ 6,
        .upperBound ⟨"b"⟩, .eraseAt 2, .eraseAt 2, .remove ⟨"A"⟩, .iterate]
      ⟨⟨.heap .a 0 0, #[]⟩, ⟨⟨.unlimited, 0, []⟩, ⟨.unlimited, 0, []⟩⟩⟩ ([] : List (Caseless × Int64)) :=
  ⟨inferInstance, inferInstance, run_follows_first_pairs (.heap .a 0 0) _ _⟩

end Commands

end FlatMap

end Containers
