import Containers.Proofs.Editing
import Containers.Vector.Drain

/-! Operations of a vector that go through many elements: appending them one by one,
copying them into another vector, and consuming them from both ends. -/
namespace Containers.Vector
variable {α : Type}

namespace Reference

/-- Elements are taken from the ends of a list in turn; each is reported together
with the number left behind it. -/
def consume : List Side → List α → List (Option α × Nat) × List α
  | [], items => ([], items)
  | .left :: sides, items =>
    let (later, rest) := consume sides items.tail
    ((items.head?, items.tail.length) :: later, rest)
  | .right :: sides, items =>
    let (later, rest) := consume sides items.dropLast
    ((items.getLast?, items.dropLast.length) :: later, rest)

end Reference

theorem foldl_concat (items given : List α) : given.foldl (fun items x => items ++ [x]) items = items ++ given := by
  rw [List.foldl_append_eq_append, ← List.flatMap_def, List.flatMap_singleton']

section Appending
variable [Stored α] {host : Host (Vector α)} {items : List α}

/-- With room for one more element a push only writes it. -/
theorem push_sure (holds : Holds host.container items) (room : items.length < host.container.capacity) (x : α) :
    Sure (push x) host fun _ after =>
      Holds after.container (items ++ [x]) ∧ after.container.capacity = host.container.capacity := by
  have differs : host.container.size ≠ host.container.capacity := by
    rw [holds.length]
    omega
  unfold push tryPush growIfFull
  rw [Sure, leads_orAbort, leads_bind]
  apply current_then
  rw [if_neg differs]
  refine ⟨⟨?_, ?_⟩, rfl⟩
  · simp only [Array.toList_push, holds.items_eq]
  · simp only [Storage.Fits, Storage.size, Array.size_push, holds.size_items]
    exact room

theorem pushes_sure (given : List α) (holds : Holds host.container items)
    (room : items.length + given.length ≤ host.container.capacity) :
    Sure (given.forM push) host fun _ after => Holds after.container (items ++ given) := by
  induction given generalizing host items with
  | nil =>
    rw [List.append_nil]
    exact holds
  | cons x rest ih =>
    rw [List.length_cons] at room
    apply (push_sure holds (by omega) x).andThen
    rintro _ after ⟨holds', same⟩
    have room' : (items ++ [x]).length + rest.length ≤ after.container.capacity := by
      rw [same, List.length_append, List.length_singleton]
      omega
    have pushed := ih holds' room'
    rwa [List.append_assoc] at pushed

/-- Pushing elements one by one ends at the first one for which there is no room. -/
theorem pushes_leads (given : List α) (holds : Holds host.container items) :
    Leads (given.forM push) host (fun _ after => Holds after.container (items ++ given))
      fun fault after => ∃ (count : Nat) (middle : Host (Vector α)) (x : α), count < given.length ∧
        (given.take count).forM push host = .ok () middle ∧
        Holds middle.container (items ++ given.take count) ∧ push x middle = .error fault after := by
  have each : ∀ (x : α) (state : Host (Vector α)) (held : List α), Holds state.container held →
      Leads (push x) state (fun _ after => Holds after.container (held ++ [x]))
        fun fault after => push x state = .error fault after := by
    intro x state held holds
    apply (push_meets holds x).exactly.mono
    · rintro _ after ⟨-, left, isLeft, holds'⟩
      cases isLeft
      exact holds'
    · exact fun _ _ ⟨fails, _⟩ => fails
  apply (forM_stops (fun host items => Holds host.container items) (fun items x => items ++ [x]) each given holds).mono
  · intro _ after holds'
    rwa [foldl_concat] at holds'
  · rintro fault after ⟨count, x, middle, found, reached, holdsMiddle, fails⟩
    rw [foldl_concat] at holdsMiddle
    exact ⟨count, middle, x, (List.getElem?_eq_some_iff.mp found).1, reached, holdsMiddle, fails⟩

/-- Why elements are not all appended: room was asked for at once and not granted,
or it was not granted to the first element behind those that were appended. -/
inductive Stalled (host : Host (Vector α)) (given : List α) (promised : Nat) :
    Fault → Host (Vector α) → Prop where
  | announced {fault : Fault} {after : Host (Vector α)}
      (crowded : Crowded host (min (host.container.size + promised) maxCount) fault after) :
      Stalled host given promised fault after
  | midway {fault : Fault} {middle after : Host (Vector α)} (count : Nat) (short : count < given.length)
      (reached : extendHinted (given.take count) promised host = .ok () middle)
      (kept : after.container = middle.container) (stuck : Stuck middle fault) :
      Stalled host given promised fault after

/-- Announcing more elements keeps those there are and makes room for all that can be counted. -/
theorem announce_leads (holds : Holds host.container items) (promised : Nat) :
    Leads (announce promised) host
      (fun _ after => Holds after.container items ∧
        min (host.container.size + promised) maxCount ≤ after.container.capacity)
      (Aborting (Crowded host (min (host.container.size + promised) maxCount))) := by
  unfold announce
  refine current_then ?_
  dsimp only
  split
  · rename_i lacking
    have more : host.container.size ≤ min (host.container.size + promised) maxCount := by
      have := holds.fits
      simp only [Storage.Fits] at this
      omega
    rw [leads_orAbort]
    refine (makeRoom_leads more lacking).mono ?_ ?_
    · rintro answer after ⟨same, room⟩
      refine ⟨⟨by rw [same, holds.items_eq], ?_⟩, room⟩
      have size : after.container.size = host.container.size := congrArg Array.size same
      rw [Storage.Fits]
      omega
    · rintro fault after ⟨kept, noRoom⟩
      exact ⟨fault, rfl, kept, noRoom⟩
  · rename_i enough
    exact ⟨holds, Nat.not_lt.mp enough⟩

theorem extendHinted_meets (holds : Holds host.container items) (given : List α) (promised : Nat) :
    Meets (extendHinted given promised) host (.ok (items ++ given, ()))
      (Aborting (Stalled host given promised)) := by
  rw [Meets, extendHinted, leads_bind]
  refine (announce_leads holds promised).exactly.mono ?_ ?_
  · rintro _ middle ⟨ran, holds', -⟩
    apply (pushes_leads given holds').mono
    · intro answer after pushed
      exact ⟨_, rfl, pushed⟩
    · rintro fault after ⟨count, last, x, short, reached, holdsLast, fails⟩
      have stops := push_meets holdsLast x
      rw [Meets, Leads, fails] at stops
      obtain ⟨impossible, -⟩ | ⟨-, cause, isFault, kept, stuck⟩ := stops
      · cases impossible
      · refine .inr ⟨⟨_, rfl⟩, cause, isFault, .midway count short ?_ kept stuck⟩
        simp only [extendHinted, bind, EStateM.bind]
        rw [ran]
        exact reached
  · rintro fault after ⟨-, cause, isFault, crowded⟩
    exact .inr ⟨⟨_, rfl⟩, cause, isFault, .announced crowded⟩

/-- What was appended before growth was not granted stays appended. -/
theorem Stalled.holds {given : List α} {promised : Nat} {fault : Fault} {after : Host (Vector α)}
    (stalled : Stalled host given promised fault after) (holds : Holds host.container items) :
    ∃ count, Holds after.container (items ++ given.take count) ∧ count ≤ given.length := by
  cases stalled with
  | announced crowded =>
    refine ⟨0, ?_, Nat.zero_le _⟩
    rw [crowded.1, List.take_zero, List.append_nil]
    exact holds
  | midway count short reached kept =>
    have met := extendHinted_meets holds (given.take count) promised
    rw [Meets, Leads, reached] at met
    obtain ⟨left, isLeft, holds'⟩ := met
    cases isLeft
    exact ⟨count, by rwa [kept], Nat.le_of_lt short⟩

/-- Appending within the room there is asks for nothing. -/
theorem extend_sure (holds : Holds host.container items) (given : List α)
    (room : items.length + given.length ≤ host.container.capacity) :
    Sure (extend given) host fun _ after => Holds after.container (items ++ given) := by
  have enough : ¬ host.container.capacity < min (host.container.size + given.length) maxCount := by
    rw [holds.length]
    omega
  unfold extend extendHinted announce
  rw [Sure, leads_bind]
  apply current_then
  rw [if_neg enough]
  exact pushes_sure given holds room

end Appending

theorem holds_of_empty {v : Vector α} (empty : v.items = #[]) : Holds v [] := by
  refine ⟨by rw [empty], ?_⟩
  rw [Storage.Fits, Storage.size, empty]
  exact Nat.zero_le _

theorem holds_empty (engine : Engine) : Holds (⟨engine, #[]⟩ : Vector α) [] :=
  holds_of_empty rfl

section Making
variable [Stored α] {host : Host (Vector α)} {items left : List α}

/-- A copy is denied a buffer of the same capacity, and nothing changed. -/
def Uncopied (host : Host (Vector α)) : Fault → Host (Vector α) → Prop :=
  Aborting fun fault after => after.container = host.container ∧
    Storage.Denied (⟨⟨host.container.engine.emptied, #[]⟩, host.pool⟩ : Host (Vector α))
      host.container.capacity fault

/-- A copy holds the same elements; it is only refused a buffer of the same capacity. -/
theorem clone_leads (holds : Holds host.container items) :
    Leads (clone host.container) host
      (fun made after => Holds made items ∧ after.container = host.container) (Uncopied host) := by
  have room := holds.room
  have filled : ∀ made : Host (Vector α), made.container.items = #[] →
      host.container.capacity ≤ made.container.capacity →
      Sure (extend host.container.items.toList) made fun _ last => Holds last.container items := by
    intro made empty enough
    rw [holds.items_eq]
    apply extend_sure (holds_of_empty empty) items
    rw [List.length_nil, Nat.zero_add]
    exact Nat.le_trans room enough
  unfold clone
  rw [leads_build]
  split
  · rename_i capacity _ heap
    have isCapacity : host.container.capacity = capacity := by
      rw [Storage.capacity, heap]
      rfl
    split
    · rename_i nonempty
      have positive : 0 < capacity := by
        have := holds.fits
        simp only [Storage.Fits] at this
        omega
      rw [leads_bind, leads_orAbort]
      apply (Storage.reallocateDiscarding_leads _ ?_).mono
      · rintro _ made ⟨empty, larger⟩
        apply (filled made empty (Nat.le_of_eq (isCapacity.trans larger.symm))).weaken
        intro _ last holds'
        exact ⟨holds', rfl⟩
      · rintro fault made ⟨kept, denied⟩
        exact ⟨fault, rfl, rfl, isCapacity ▸ denied⟩
      · rw [Storage.capacity, heap]
        exact positive
    · rename_i empty
      refine ⟨?_, rfl⟩
      have none : items = [] := by
        rw [← holds.items_eq, Array.toList_eq_nil_iff]
        exact Array.eq_empty_of_size_eq_zero (Decidable.of_not_not empty)
      rw [none]
      exact holds_empty _
  · rename_i inline
    apply (filled _ rfl ?_).weaken
    · intro _ made holds'
      exact ⟨holds', rfl⟩
    · rw [Storage.capacity, Storage.capacity, inline]
      exact Nat.le_refl _

/-- A vector that is made anew stands in place of the old one, which stays if the
making fails. -/
theorem renew_meets {fill : Op (Vector α) Unit} {ungranted : Fault → Host (Vector α) → Prop}
    (meets : Meets fill ⟨⟨host.container.engine.fresh, #[]⟩, host.pool⟩ (.ok (left, ())) ungranted) :
    Meets (renew fill) host (.ok (left, ())) fun fault after =>
      after.container = host.container ∧ ∃ made, ungranted fault made := by
  unfold renew
  apply meets_current
  rw [Meets, leads_bind, leads_build]
  apply meets.mono
  · rintro answer made ⟨_, isLeft, holds⟩
    cases isLeft
    exact ⟨left, rfl, holds⟩
  · rintro fault made (⟨impossible, -⟩ | ⟨-, reason⟩)
    · cases impossible
    · exact .inr ⟨⟨_, rfl⟩, rfl, made, reason⟩

/-- A vector that is made anew of given elements and then rewritten. -/
theorem refill_meets {given : List α} {change : Array α → Array α} (host : Host (Vector α))
    (list : (change given.toArray).toList = left) (shorter : left.length ≤ given.length) :
    Meets (renew do extend given; Storage.rewrite change) host (.ok (left, ())) fun fault after =>
      after.container = host.container ∧ ∃ made, Aborting
        (Stalled ⟨⟨host.container.engine.fresh, #[]⟩, host.pool⟩ given given.length) fault made := by
  apply renew_meets
  rw [Meets, leads_bind]
  apply (extendHinted_meets (holds_empty _) given given.length).mono
  · rintro answer after ⟨_, isLeft, holds⟩
    cases isLeft
    apply (rewrite_sure (by rwa [holds.toArray]) (Nat.le_trans shorter holds.room)).weaken
    intro _ last holds'
    exact ⟨left, rfl, holds'⟩
  · rintro fault after (⟨impossible, -⟩ | ⟨-, reason⟩)
    · cases impossible
    · exact .inr ⟨⟨_, rfl⟩, reason⟩

theorem renew_empty_meets {ungranted : Fault → Host (Vector α) → Prop} (host : Host (Vector α)) :
    Meets (renew (pure ())) host (.ok ([], ())) ungranted :=
  ⟨[], rfl, holds_empty _⟩

end Making

end Containers.Vector

namespace Containers.Drain
variable {α : Type} {drain : Drain α} {items : List α}

/-- These elements are left to be taken. -/
structure Rests (drain : Drain α) (items : List α) : Prop where
  rest_eq : drain.rest.toList = items
  ordered : drain.front ≤ drain.back
  within : drain.back ≤ drain.buffer.size

theorem Rests.window (rests : drain.Rests items) :
    items = (drain.buffer.toList.drop drain.front).take (drain.back - drain.front) := by
  rw [← rests.rest_eq, rest, Array.toList_extract, List.extract_eq_take_drop]

theorem Rests.size_eq (rests : drain.Rests items) : drain.size = items.length := by
  have := rests.within
  rw [rests.window, List.length_take, List.length_drop, Array.length_toList, size]
  omega

theorem next_rests (rests : drain.Rests items) :
    drain.next.1 = items.head? ∧ drain.next.2.Rests items.tail ∧ drain.next.2.engine = drain.engine := by
  have length := rests.size_eq
  have ordered := rests.ordered
  have within := rests.within
  rw [size] at length
  unfold next
  split
  · rename_i same
    have none : items = [] := List.eq_nil_of_length_eq_zero (by omega)
    subst none
    exact ⟨rfl, rests, rfl⟩
  · rename_i differs
    refine ⟨?_, ⟨?_, ?_, within⟩, rfl⟩
    · rw [List.head?_eq_getElem?, rests.window, List.getElem?_take_of_lt (by omega), List.getElem?_drop,
        Array.getElem?_toList]
      rfl
    · rw [rest, Array.toList_extract, List.extract_eq_take_drop, rests.window, ← List.drop_one, List.drop_take,
        List.drop_drop, Nat.sub_sub]
    · change drain.front + 1 ≤ drain.back
      omega

theorem nextBack_rests (rests : drain.Rests items) :
    drain.nextBack.1 = items.getLast? ∧ drain.nextBack.2.Rests items.dropLast ∧
      drain.nextBack.2.engine = drain.engine := by
  have length := rests.size_eq
  have ordered := rests.ordered
  have within := rests.within
  rw [size] at length
  unfold nextBack
  split
  · rename_i same
    have none : items = [] := List.eq_nil_of_length_eq_zero (by omega)
    subst none
    exact ⟨rfl, rests, rfl⟩
  · rename_i differs
    refine ⟨?_, ⟨?_, ?_, ?_⟩, rfl⟩
    · have last : drain.front + (drain.back - drain.front - 1) = drain.back - 1 := by omega
      rw [List.getLast?_eq_getElem?, ← length, rests.window, List.getElem?_take_of_lt (by omega),
        List.getElem?_drop, Array.getElem?_toList, last]
    · have shorter : min (drain.back - drain.front - 1) (drain.back - drain.front) =
          drain.back - 1 - drain.front := by omega
      rw [rest, Array.toList_extract, List.extract_eq_take_drop, List.dropLast_eq_take, ← length, rests.window,
        List.take_take, shorter]
    · change drain.front ≤ drain.back - 1
      omega
    · change drain.back - 1 ≤ drain.buffer.size
      omega

/-- Taking from both ends yields what a list yields, and leaves what it leaves. -/
theorem takeAll_rests (sides : List Side) (rests : drain.Rests items) :
    (drain.takeAll sides).1 = (Vector.Reference.consume sides items).1 ∧
      (drain.takeAll sides).2.Rests (Vector.Reference.consume sides items).2 ∧
      (drain.takeAll sides).2.engine = drain.engine := by
  induction sides generalizing drain items with
  | nil => exact ⟨rfl, rests, rfl⟩
  | cons side sides ih =>
    cases side with
    | left =>
      obtain ⟨head, rests', engine⟩ := next_rests rests
      obtain ⟨later, last, engine'⟩ := ih rests'
      refine ⟨?_, last, engine'.trans engine⟩
      simp only [takeAll, takeFrom, Vector.Reference.consume, head, later, rests'.size_eq]
    | right =>
      obtain ⟨head, rests', engine⟩ := nextBack_rests rests
      obtain ⟨later, last, engine'⟩ := ih rests'
      refine ⟨?_, last, engine'.trans engine⟩
      simp only [takeAll, takeFrom, Vector.Reference.consume, head, later, rests'.size_eq]

theorem ofVector_rests (v : Vector α) : (ofVector v).Rests v.items.toList := by
  refine ⟨?_, Nat.zero_le _, Nat.le_refl _⟩
  rw [rest, ofVector, Storage.size, Array.extract_size]

end Containers.Drain

namespace Containers.Vector

/-- Consuming a vector yields what a list yields, and the run goes on with none of it. -/
theorem drain_meets {α : Type} [Stored α] {host : Host (Vector α)} {items : List α}
    {ungranted : Fault → Host (Vector α) → Prop} (holds : Holds host.container items) (sides : List Side) :
    Meets (drain sides) host
      (.ok ([], ⟨(Reference.consume sides items).1, (Reference.consume sides items).2.toArray⟩)) ungranted := by
  have start : (Drain.ofVector host.container).Rests items := holds.items_eq ▸ Drain.ofVector_rests _
  obtain ⟨taken, rests, -⟩ := Drain.takeAll_rests sides start
  refine ⟨[], ?_, holds_empty _⟩
  rw [← taken, ← rests.rest_eq]

end Containers.Vector
