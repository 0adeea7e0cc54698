import Containers.Proofs.Gathering
import Containers.Proofs.VectorRuns

/-! Runs of sorted multimaps. A multimap holds the stable arrangement of the pairs that
survive, taken in the order in which they were inserted. Nothing records that order: a new
pair goes behind its equals, and what is taken out leaves the others as they were. -/
namespace Containers.FlatMultiMap
variable {κ ν : Type}

namespace Reference
open Listing

/-- The first place from `start` up to `stop` with a pair that has this value. -/
def seek [BEq ν] (value : ν) (start stop : Nat) (pairs : List (κ × ν)) : Option Nat :=
  (List.range' start (stop - start)).find? fun i => (pairs[i]?).any fun pair => pair.2 == value

section Growth
variable [Stored κ] [Stored ν]

/-- The growth that a command asks for is not granted; what is left then. -/
def Ungranted (before : Host (FlatMultiMap κ ν)) : Command κ ν → Fault → Host (FlatMultiMap κ ν) → Prop
  | .insert _ _ => Vector.Aborting (Vector.Unpushed before)
  | .tryInsert _ _ => Vector.Unpushed before
  | .renewFrom pairs =>
    Vector.Reference.Aside before (Vector.Aborting (Vector.Stalled (Vector.Reference.anew before) pairs pairs.length))
  | _ => fun _ _ => False

theorem Ungranted.kept {before after : Host (FlatMultiMap κ ν)} {command : Command κ ν} {fault : Fault}
    (reason : Ungranted before command fault after) : after.container = before.container := by
  cases command with
  | insert k value =>
    obtain ⟨cause, -, unpushed⟩ := reason
    exact unpushed.1
  | tryInsert k value => exact reason.1
  | renewFrom pairs => exact reason.1
  | _ => exact reason.elim

end Growth

variable [Ord κ]

/-- What a command leaves of the surviving pairs, the oldest first, and what it answers, or
the fault of the condition that it breaks. -/
def apply [BEq ν] (survivors : List (κ × ν)) : Command κ ν → Except Fault (List (κ × ν) × Reply κ ν)
  | .insert k value => .ok (survivors ++ [(k, value)], .place (countUpTo k survivors))
  | .tryInsert k value => .ok (survivors ++ [(k, value)], .place (countUpTo k survivors))
  | .find k => .ok (survivors, .place? ((find? k survivors).map fun _ => countBelow k survivors))
  | .count k => .ok (survivors, .place (under k survivors).length)
  | .equalRange k => .ok (survivors, .range (countBelow k survivors) (countUpTo k survivors))
  | .getAll k => .ok (survivors, .pairs (under k survivors).toArray)
  | .findValue value start stop =>
    if start ≤ stop ∧ stop ≤ survivors.length then
      .ok (survivors, .place? (seek value start stop (arrange survivors)))
    else .error .outOfRange
  | .erase k => .ok (drop k survivors, .place (under k survivors).length)
  | .eraseAt position =>
    if position < survivors.length then .ok (withdraw position survivors, .place position)
    else .error (.panicked (.eraseIndex position survivors.length))
  | .lowerBound k => .ok (survivors, .place (countBelow k survivors))
  | .upperBound k => .ok (survivors, .place (countUpTo k survivors))
  | .isEmpty => .ok (survivors, .flag survivors.isEmpty)
  | .iterate => .ok (survivors, .walks (arrange survivors).toArray)
  | .clear => .ok ([], .done)
  | .renewFrom pairs => .ok (pairs, .done)

/-- The surviving pairs after a command, given how it ended. -/
def next [BEq ν] (survivors : List (κ × ν)) (command : Command κ ν) (outcome : Except Fault (Reply κ ν)) :
    List (κ × ν) :=
  Vector.leaves survivors (apply survivors command) outcome

/-- What is left is stored in the order of the keys. -/
def stored {β : Type} (edited : Except Fault (List (κ × ν) × β)) : Except Fault (List (κ × ν) × β) :=
  edited.map fun (left, answer) => (arrange left, answer)

theorem leaves_stored {β : Type} (survivors : List (κ × ν)) (edited : Except Fault (List (κ × ν) × β))
    (outcome : Except Fault β) : Vector.leaves (arrange survivors) (stored edited) outcome =
      arrange (Vector.leaves survivors edited outcome) := by
  cases edited <;> cases outcome <;> rfl

/-- The places from `start` up to `stop` are those of the pairs with keys equal to `k`. -/
def Covers (items : Array (κ × ν)) (k : κ) (start stop : Nat) : Prop :=
  ∀ i pair, items[i]? = some pair → (compare pair.1 k = .eq ↔ start ≤ i ∧ i < stop)

variable [Stored κ] [Stored ν] [BEq ν]

/-- A step does what the surviving pairs do, and the multimap then holds just the stable
arrangement of those that are left. The bounds that are answered enclose the pairs with
equal keys, and the place that is answered for a new pair is where it stands. -/
structure Matches (survivors : List (κ × ν)) (command : Command κ ν) (before : Host (FlatMultiMap κ ν))
    (step : Step (FlatMultiMap κ ν) (Reply κ ν)) : Prop where
  settles : Vector.Settles before (stored (apply survivors command)) (Ungranted before command) step
  holds : Vector.Holds step.after.container (arrange (next survivors command step.outcome))
  arranges : Arranges (next survivors command step.outcome) step.after.container.items.toList
  counts : ∀ k, countUpTo k survivors = countBelow k survivors + (under k survivors).length
  covers : ∀ k, Covers before.container.items k (countBelow k survivors) (countUpTo k survivors)
  places : ∀ k value reply, command = .insert k value ∨ command = .tryInsert k value → step.outcome = .ok reply →
    step.after.container.items[countUpTo k survivors]? = some (k, value)

end Reference

section Ranges

theorem seek_eq [BEq ν] (value : ν) {start stop : Nat} (pairs : List (κ × ν)) (within : stop ≤ pairs.length) :
    (((pairs.drop start).take (stop - start)).findIdx? fun pair => pair.2 == value).map (start + ·) =
      Reference.seek value start stop pairs := by
  generalize count : stop - start = n
  unfold Reference.seek
  rw [count]
  induction n generalizing start with
  | zero => rfl
  | succ n ih =>
    have inside : start < pairs.length := by omega
    have later := ih (by omega : stop - (start + 1) = n)
    rw [List.drop_eq_getElem_cons inside, List.take_succ_cons, List.findIdx?_cons, List.range'_succ, List.find?_cons,
      List.getElem?_eq_getElem inside, Option.any_some]
    cases pairs[start].2 == value with
    | true => rfl
    | false =>
      simp only [Bool.false_eq_true, ↓reduceIte, ← later, Option.map_map]
      congr 1
      funext i
      simp only [Function.comp_apply]
      omega

/-- What is left of a list without its middle. -/
theorem eraseRange_middle {α : Type} (front middle back : List α) : ∃ place, Vector.Reference.eraseRange
    (front ++ (middle ++ back)) front.length (front.length + middle.length) = .ok (front ++ back, place) := by
  unfold Vector.Reference.eraseRange
  cases middle with
  | nil =>
    rw [if_pos (by simp)]
    exact ⟨_, rfl⟩
  | cons x rest =>
    rw [if_neg (by simp), if_pos (by simp), List.take_left, ← List.append_assoc, ← List.length_append,
      List.drop_left]
    exact ⟨_, rfl⟩

end Ranges

variable [Ord κ]

section Searches
variable {map : FlatMultiMap κ ν} {host : Host (FlatMultiMap κ ν)} {survivors : List (κ × ν)}
  {ungranted : Fault → Host (FlatMultiMap κ ν) → Prop}

theorem findValue_meets [BEq ν] (holds : Vector.Holds host.container (Listing.arrange survivors)) (value : ν)
    (start stop : Nat) :
    Vector.Meets (findValue value start stop) host
      (if start ≤ stop ∧ stop ≤ survivors.length then
        .ok (Listing.arrange survivors, Reference.seek value start stop (Listing.arrange survivors))
      else .error .outOfRange) ungranted := by
  unfold findValue
  apply Vector.meets_current
  rw [holds.length, Listing.length_arrange]
  split
  · rename_i within
    have first : ((host.container.items.extract start stop).findIdx? fun pair => pair.2 == value).map (start + ·) =
        Reference.seek value start stop (Listing.arrange survivors) := by
      rw [← seek_eq value _ (by simpa using within.2), holds.toArray, List.extract_toArray, List.findIdx?_toArray,
        List.extract_eq_take_drop]
    rw [first]
    exact Vector.meets_answer holds
  · exact Vector.meets_error rfl

theorem renewFrom_meets [Stored κ] [Stored ν] (host : Host (FlatMultiMap κ ν)) (pairs : List (κ × ν)) :
    Vector.Meets (renewFrom pairs) host (.ok (Listing.arrange pairs, ()))
      (Vector.Reference.Aside host
        (Vector.Aborting (Vector.Stalled (Vector.Reference.anew host) pairs pairs.length))) := by
  have arranged : (Flat.sortByKey pairs.toArray).toList = Listing.arrange pairs := Flat.toList_sortByKey pairs.toArray
  exact Vector.refill_meets host arranged (Nat.le_of_eq (Listing.length_arrange pairs))

variable [Std.TransOrd κ]

theorem equalRange_eq (list : map.items.toList = Listing.arrange survivors) (k : κ) :
    map.equalRange k = (Listing.countBelow k survivors, Listing.countUpTo k survivors) := by
  have inOrder : Listing.InOrder map.items.toList := list ▸ (Listing.arranges_arrange survivors).inOrder
  rw [equalRange, Flat.lowerBound_eq inOrder, Flat.upperBound_eq inOrder, list, Listing.countBelow_arrange,
    Listing.countUpTo_arrange]

theorem findIdx?_eq (list : map.items.toList = Listing.arrange survivors) (k : κ) :
    map.findIdx? k = (Listing.find? k survivors).map fun _ => Listing.countBelow k survivors := by
  simp only [findIdx?, equalRange_eq list, Listing.countUpTo_eq, ← Listing.head?_under]
  cases Listing.under k survivors with
  | nil => simp
  | cons pair rest => simp

theorem count_eq (list : map.items.toList = Listing.arrange survivors) (k : κ) :
    map.count k = (Listing.under k survivors).length := by
  simp only [count, equalRange_eq list, Listing.countUpTo_eq]
  omega

theorem getAll_eq (list : map.items.toList = Listing.arrange survivors) (k : κ) :
    map.getAll k = (Listing.under k survivors).toArray := by
  obtain ⟨before, after, arranged, -, below, upTo⟩ := Listing.arrange_sections k survivors
  apply Array.toList_inj.mp
  simp only [getAll, equalRange_eq list, below, upTo, Array.toList_extract, List.extract_eq_take_drop, list, arranged]
  simp

/-- The equal range covers the pairs with equal keys. -/
theorem covers_equal (list : map.items.toList = Listing.arrange survivors) (k : κ) :
    Reference.Covers map.items k (Listing.countBelow k survivors) (Listing.countUpTo k survivors) := by
  obtain ⟨before, after, arranged, sections, below, upTo⟩ := Listing.arrange_sections k survivors
  intro i pair found
  rw [← Array.getElem?_toList, list, arranged] at found
  rw [below, upTo]
  exact sections.covers found

theorem erase_meets (holds : Vector.Holds host.container (Listing.arrange survivors)) (k : κ) :
    Vector.Meets (erase k) host (.ok (Listing.arrange (Listing.drop k survivors), (Listing.under k survivors).length))
      ungranted := by
  obtain ⟨before, after, arranged, sections, below, upTo⟩ := Listing.arrange_sections k survivors
  have left : Listing.arrange (Listing.drop k survivors) = before ++ after := by
    rw [Listing.arrange_drop, arranged, sections.drop_eq]
  unfold erase
  apply Vector.meets_current
  simp only [equalRange_eq holds.items_eq, below, upTo, Nat.add_sub_cancel_left]
  obtain ⟨place, cut⟩ := eraseRange_middle before (Listing.under k survivors) after
  have erased : Vector.Meets _ host _ ungranted := Vector.meets_return (Listing.under k survivors).length
    (Vector.eraseRange_meets holds before.length (before.length + (Listing.under k survivors).length))
  rw [arranged, cut] at erased
  rw [left]
  exact erased

theorem eraseAt_meets (holds : Vector.Holds host.container (Listing.arrange survivors)) (position : Nat) :
    Vector.Meets (eraseAt position) host
      (if position < survivors.length then .ok (Listing.arrange (Listing.withdraw position survivors), position)
      else .error (.panicked (.eraseIndex position survivors.length))) ungranted := by
  have erased : Vector.Meets _ host _ ungranted := Vector.erase_meets holds position
  rw [Vector.Reference.remove, Listing.length_arrange] at erased
  split
  · rename_i inside
    rw [List.getElem?_eq_getElem (by simpa using inside)] at erased
    rw [Listing.arrange_withdraw]
    exact erased
  · rename_i outside
    rw [List.getElem?_eq_none (by simpa using outside)] at erased
    exact erased

variable [Stored κ] [Stored ν]

theorem tryInsert_meets (holds : Vector.Holds host.container (Listing.arrange survivors)) (k : κ) (value : ν) :
    Vector.Meets (tryInsert k value) host
      (.ok (Listing.arrange (survivors ++ [(k, value)]), Listing.countUpTo k survivors)) (Vector.Unpushed host) := by
  have inOrder : Listing.InOrder host.container.items.toList :=
    holds.items_eq ▸ (Listing.arranges_arrange survivors).inOrder
  have within : Listing.countUpTo k survivors ≤ (Listing.arrange survivors).length := by
    rw [Listing.length_arrange]
    exact List.countP_le_length
  unfold tryInsert
  apply Vector.meets_current
  have put := Vector.tryInsert_meets holds (Listing.countUpTo k survivors) (k, value)
  rw [Vector.Reference.insert, if_pos within] at put
  rw [Flat.upperBound_eq inOrder, holds.items_eq, Listing.countUpTo_arrange, Listing.arrange_concat]
  exact put

theorem insert_meets (holds : Vector.Holds host.container (Listing.arrange survivors)) (k : κ) (value : ν) :
    Vector.Meets (insert k value) host
      (.ok (Listing.arrange (survivors ++ [(k, value)]), Listing.countUpTo k survivors))
      (Vector.Aborting (Vector.Unpushed host)) := by
  apply Vector.meets_orAbort (tryInsert_meets holds k value)
  intro fault impossible
  cases impossible

end Searches

section Commands
variable [Stored κ] [Stored ν] [BEq ν] {host : Host (FlatMultiMap κ ν)} {survivors : List (κ × ν)}

/-- A command that only reads. -/
theorem reading_meets {command : Command κ ν} (holds : Vector.Holds host.container (Listing.arrange survivors))
    (read : FlatMultiMap κ ν → Reply κ ν) (performs : command.perform = do return read (← Op.current))
    (applies : Reference.apply survivors command = .ok (survivors, read host.container)) :
    Vector.Meets command.perform host (Reference.stored (Reference.apply survivors command))
      (Reference.Ungranted host command) := by
  rw [performs, applies]
  exact Vector.meets_current (Vector.meets_answer holds)

variable [Std.TransOrd κ]

theorem perform_meets (holds : Vector.Holds host.container (Listing.arrange survivors)) (command : Command κ ν) :
    Vector.Meets command.perform host (Reference.stored (Reference.apply survivors command))
      (Reference.Ungranted host command) := by
  have range := equalRange_eq holds.items_eq
  cases command with
  | insert k value => exact Vector.meets_map Reply.place (insert_meets holds k value)
  | tryInsert k value => exact Vector.meets_map Reply.place (tryInsert_meets holds k value)
  | find k =>
    apply reading_meets holds (fun map => .place? (map.findIdx? k)) rfl
    rw [findIdx?_eq holds.items_eq]
    rfl
  | count k =>
    apply reading_meets holds (fun map => .place (map.count k)) rfl
    rw [count_eq holds.items_eq]
    rfl
  | equalRange k =>
    apply reading_meets holds (fun map => .range (map.equalRange k).1 (map.equalRange k).2) rfl
    rw [range]
    rfl
  | getAll k =>
    apply reading_meets holds (fun map => .pairs (map.getAll k)) rfl
    rw [getAll_eq holds.items_eq]
    rfl
  | findValue value start stop =>
    have applies : Reference.stored (Reference.apply survivors (.findValue value start stop)) =
        (if start ≤ stop ∧ stop ≤ survivors.length then
          .ok (Listing.arrange survivors, Reference.seek value start stop (Listing.arrange survivors))
        else .error .outOfRange : Except Fault (List (κ × ν) × Option Nat)).map
          fun (left, answer) => (left, .place? answer) := by
      simp only [Reference.apply]
      split <;> rfl
    rw [applies]
    exact Vector.meets_map Reply.place? (findValue_meets holds value start stop)
  | erase k => exact Vector.meets_map Reply.place (erase_meets holds k)
  | eraseAt position =>
    have applies : Reference.stored (Reference.apply survivors (.eraseAt position : Command κ ν)) =
        (if position < survivors.length then .ok (Listing.arrange (Listing.withdraw position survivors), position)
        else .error (.panicked (.eraseIndex position survivors.length)) : Except Fault (List (κ × ν) × Nat)).map
          fun (left, answer) => (left, .place answer) := by
      simp only [Reference.apply]
      split <;> rfl
    rw [applies]
    exact Vector.meets_map Reply.place (eraseAt_meets holds position)
  | lowerBound k =>
    apply reading_meets holds (fun map => .place (map.equalRange k).1) rfl
    rw [range]
    rfl
  | upperBound k =>
    apply reading_meets holds (fun map => .place (map.equalRange k).2) rfl
    rw [range]
    rfl
  | isEmpty =>
    have empty : decide (survivors.length = 0) = survivors.isEmpty := by cases survivors <;> simp
    apply reading_meets holds (fun map => .flag (map.size = 0)) rfl
    rw [holds.length, Listing.length_arrange, empty]
    rfl
  | iterate =>
    apply reading_meets holds (fun map => .walks map.items) rfl
    rw [holds.toArray]
    rfl
  | clear =>
    simp only [Reference.apply, Reference.stored, Except.map, Listing.arrange_nil]
    exact Vector.meets_return Reply.done (Vector.truncate_meets holds 0)
  | renewFrom pairs => exact Vector.meets_return Reply.done (renewFrom_meets host pairs)

theorem perform_matches (holds : Vector.Holds host.container (Listing.arrange survivors)) (command : Command κ ν) :
    Reference.Matches survivors command host (command.perform.step host) := by
  have settles := (perform_meets holds command).settles
  have kept : ∀ fault after, Reference.Ungranted host command fault after →
      after.container = host.container := fun _ _ reason => reason.kept
  have holds' := settles.holds holds kept
  rw [Reference.leaves_stored] at holds'
  constructor
  · exact settles
  · exact holds'
  · rw [holds'.items_eq]
    exact Listing.arranges_arrange _
  · intro k
    exact Listing.countUpTo_eq k survivors
  · exact covers_equal holds.items_eq
  · rintro k value reply inserts answered
    have left : Reference.next survivors command (command.perform.step host).outcome = survivors ++ [(k, value)] := by
      rw [answered]
      rcases inserts with rfl | rfl
      · rfl
      · rfl
    rw [← Array.getElem?_toList, holds'.items_eq, ← Reference.next, left]
    exact Listing.getElem?_arrange_concat survivors (k, value)

/-- Every run of a sorted multimap keeps the stable arrangement of the pairs that survive, taken in
the order in which they were inserted. -/
theorem run_keeps_stable_order (engine : Engine) (pool : Pool) (commands : List (Command κ ν)) :
    Session.Follows Command.perform (fun survivors command step => Reference.next survivors command step.outcome)
      Reference.Matches commands ⟨⟨engine, #[]⟩, pool⟩ [] := by
  apply Session.follows_of_step (fun host survivors => Vector.Holds host.container (Listing.arrange survivors))
  · intro command host survivors holds
    have agrees := perform_matches holds command
    exact ⟨agrees, agrees.holds⟩
  · rw [Listing.arrange_nil]
    exact Vector.holds_empty engine

/-- Keys that differ in the case of a letter only are equal in the order. -/
theorem run_keeps_stable_order_caseless : Std.TransOrd Caseless ∧
    Session.Follows Command.perform (fun survivors command step => Reference.next survivors command step.outcome)
      Reference.Matches
      [.renewFrom [(⟨"b"⟩, 1), (⟨"a"⟩, 2), (⟨"B"⟩, 3)], .insert ⟨"A"⟩ 4, .tryInsert ⟨"b"⟩ 5, .equalRange ⟨"B"⟩,
        .findValue 3 1 4, .findValue 3 4 9, .eraseAt 3, .getAll ⟨"B"⟩, .erase ⟨"a"⟩, .eraseAt 7, .iterate]
      ⟨⟨.heap .a 0 0, #[]⟩, ⟨⟨.unlimited, 0, []⟩, ⟨.unlimited, 0, []⟩⟩⟩ ([] : List (Caseless × Int64)) :=
  ⟨inferInstance, run_keeps_stable_order (.heap .a 0 0) _ _⟩

end Commands

end Containers.FlatMultiMap
