import Containers.Proofs.FlatMapRuns
import Containers.Proofs.FlatMultiMapRuns

/-! Building a sorted container at once and building it pair by pair. The first way sorts
and, for a map, gathers what is to be kept; the second searches for every pair the place
where it belongs. Both end with the same run of pairs. -/
namespace Containers

section Statement
variable {α : Type} [Stored α]

/-- An operation that is given the elements one by one was not granted growth for this
one, when those in front of it had been taken in. -/
def Halts (single : List α → Op (Vector α) Unit) (given : List α) (start : Host (Vector α)) (fault : Fault)
    (after : Host (Vector α)) : Prop :=
  ∃ count middle, count < given.length ∧ single (given.take count) start = .ok () middle ∧
    Vector.Aborting (Vector.Unpushed middle) fault after

/-- Building at once and taking in one by one end with the same elements. Each of the two
ends, unless growth that it asks for is not granted. -/
structure Concurs (build single : List α → Op (Vector α) Unit) (given : List α) (host start : Host (Vector α)) :
    Prop where
  same : ∀ built taken, build given host = .ok () built → single given start = .ok () taken →
    built.container.items = taken.container.items
  builds : Leads (build given) host (fun _ _ => True)
    (Vector.Reference.Aside host (Vector.Aborting (Vector.Stalled (Vector.Reference.anew host) given given.length)))
  takes : Leads (single given) start (fun _ _ => True) (Halts single given start)

/-- Both ways lead to these elements. -/
theorem concurs_of_leads {build single : List α → Op (Vector α) Unit} {given slice : List α}
    {host start : Host (Vector α)}
    (built : Vector.Meets (build given) host (.ok (slice, ())) (Vector.Reference.Aside host
      (Vector.Aborting (Vector.Stalled (Vector.Reference.anew host) given given.length))))
    (taken : Leads (single given) start (fun _ after => Vector.Holds after.container slice)
      (Halts single given start)) : Concurs build single given host start := by
  constructor
  · intro after after' ran ran'
    simp only [Vector.Meets, Leads, ran, ran'] at built taken
    obtain ⟨left, isLeft, holds⟩ := built
    cases isLeft
    rw [holds.toArray, taken.toArray]
  · apply built.mono
    · exact fun _ _ _ => trivial
    · rintro fault after (⟨impossible, -⟩ | ⟨-, reason⟩)
      · cases impossible
      · exact reason
  · exact taken.mono (fun _ _ _ => trivial) fun _ _ halts => halts

/-- Taking in one by one, where each element does to the list that is held what it does to a reference. -/
theorem forM_halts (holds : Vector α → List α → Prop) (next : List α → α → List α) {step : α → Op (Vector α) Unit}
    (each : ∀ x host items, holds host.container items →
      Leads (step x) host (fun _ after => holds after.container (next items x)) (Vector.Aborting (Vector.Unpushed host)))
    (given : List α) {start : Host (Vector α)} (initial : holds start.container []) :
    Leads (given.forM step) start (fun _ after => holds after.container (given.foldl next []))
      (Halts (fun given => given.forM step) given start) := by
  apply (forM_stops (fun host items => holds host.container items) next each given initial).mono
  · exact fun _ _ done => done
  · rintro fault after ⟨count, x, middle, found, reached, -, unpushed⟩
    exact ⟨count, middle, (List.getElem?_eq_some_iff.mp found).1, reached, unpushed⟩

end Statement

variable {κ ν : Type} [Ord κ] [Stored κ] [Stored ν]

/-- Files pairs one by one. -/
def FlatMap.insertAll [BEq κ] (pairs : List (κ × ν)) : Op (FlatMap κ ν) Unit :=
  pairs.forM fun pair => do
    let _ ← insert pair.1 pair.2

/-- Files pairs one by one, all of which are kept. -/
def FlatMultiMap.insertAll (pairs : List (κ × ν)) : Op (FlatMultiMap κ ν) Unit :=
  pairs.forM fun pair => do
    let _ ← insert pair.1 pair.2

variable [Std.TransOrd κ] {start : Host (Vector (κ × ν))}

theorem FlatMap.insertAll_leads [BEq κ] [Std.LawfulBEqOrd κ] (pairs : List (κ × ν)) (empty : start.container.items = #[]) :
    Leads (insertAll pairs) start (fun _ after => Vector.Holds after.container (Listing.filed pairs))
      (Halts insertAll pairs start) := by
  have each : ∀ (pair : κ × ν) (host : Host (FlatMap κ ν)) (entries : List (κ × ν)),
      Vector.Holds host.container entries ∧ Sorted entries →
      Leads (do let _ ← insert pair.1 pair.2 : Op (FlatMap κ ν) Unit) host
        (fun _ after => Vector.Holds after.container (Listing.file pair entries) ∧ Sorted (Listing.file pair entries))
        (Vector.Aborting (Vector.Unpushed host)) := by
    rintro pair host entries ⟨holds, sorted⟩
    apply (leads_bind _ _).mpr
    apply (insert_meets holds sorted pair.1 pair.2).mono
    · rintro answer after ⟨left, isLeft, holds'⟩
      cases isLeft
      exact ⟨holds', Listing.sorted_file sorted pair⟩
    · rintro fault after (⟨impossible, -⟩ | ⟨-, cause, isFault, -, unpushed⟩)
      · cases impossible
      · exact ⟨cause, isFault, unpushed⟩
  have filed := forM_halts (fun map entries => Vector.Holds map entries ∧ Sorted entries)
    (fun entries pair => Listing.file pair entries) each pairs ⟨Vector.holds_of_empty empty, .nil⟩
  exact filed.mono (fun _ _ left => left.1) fun _ _ halts => halts

theorem FlatMultiMap.insertAll_leads (pairs : List (κ × ν)) (empty : start.container.items = #[]) :
    Leads (insertAll pairs) start (fun _ after => Vector.Holds after.container (Listing.arrange pairs))
      (Halts insertAll pairs start) := by
  have each : ∀ (pair : κ × ν) (host : Host (FlatMultiMap κ ν)) (survivors : List (κ × ν)),
      Vector.Holds host.container (Listing.arrange survivors) →
      Leads (do let _ ← insert pair.1 pair.2 : Op (FlatMultiMap κ ν) Unit) host
        (fun _ after => Vector.Holds after.container (Listing.arrange (survivors ++ [pair])))
        (Vector.Aborting (Vector.Unpushed host)) := by
    intro pair host survivors holds
    apply (leads_bind _ _).mpr
    apply (insert_meets holds pair.1 pair.2).mono
    · rintro answer after ⟨left, isLeft, holds'⟩
      cases isLeft
      exact holds'
    · rintro fault after (⟨impossible, -⟩ | ⟨-, unpushed⟩)
      · cases impossible
      · exact unpushed
  have initial : Vector.Holds start.container (Listing.arrange []) := by
    rw [Listing.arrange_nil]
    exact Vector.holds_of_empty empty
  have stored := forM_halts (fun map survivors => Vector.Holds map (Listing.arrange survivors))
    (fun survivors pair => survivors ++ [pair]) each pairs initial
  rwa [Vector.foldl_concat, List.nil_append] at stored

/-- Building a sorted map or multimap at once agrees with inserting the pairs one by one. -/
theorem building_concurs_with_inserting [BEq κ] [Std.LawfulBEqOrd κ] (pairs : List (κ × ν)) (host : Host (Vector (κ × ν)))
    (empty : start.container.items = #[]) :
    Concurs FlatMap.renewFrom FlatMap.insertAll pairs host start ∧
      Concurs FlatMultiMap.renewFrom FlatMultiMap.insertAll pairs host start := by
  constructor
  · exact concurs_of_leads (FlatMap.renewFrom_meets host pairs) (FlatMap.insertAll_leads pairs empty)
  · exact concurs_of_leads (FlatMultiMap.renewFrom_meets host pairs) (FlatMultiMap.insertAll_leads pairs empty)

/-- Keys that differ in the case of a letter only are equal in the order. -/
theorem building_concurs_with_inserting_caseless : Std.TransOrd Caseless ∧ Std.LawfulBEqOrd Caseless ∧
    Concurs FlatMap.renewFrom FlatMap.insertAll [(⟨"b"⟩, 1), (⟨"a"⟩, 2), (⟨"B"⟩, 3), (⟨"A"⟩, 4)]
      ⟨⟨.heap .a 0 0, #[]⟩, ⟨⟨.unlimited, 0, []⟩, ⟨.unlimited, 0, []⟩⟩⟩
      (⟨⟨.inline 4, #[]⟩, ⟨⟨.unlimited, 0, []⟩, ⟨.unlimited, 0, []⟩⟩⟩ : Host (Vector (Caseless × Int64))) ∧
    Concurs FlatMultiMap.renewFrom FlatMultiMap.insertAll [(⟨"b"⟩, 1), (⟨"a"⟩, 2), (⟨"B"⟩, 3), (⟨"A"⟩, 4)]
      ⟨⟨.heap .a 0 0, #[]⟩, ⟨⟨.unlimited, 0, []⟩, ⟨.unlimited, 0, []⟩⟩⟩
      (⟨⟨.inline 4, #[]⟩, ⟨⟨.unlimited, 0, []⟩, ⟨.unlimited, 0, []⟩⟩⟩ : Host (Vector (Caseless × Int64))) :=
  ⟨inferInstance, inferInstance, building_concurs_with_inserting _ _ rfl⟩

end Containers
