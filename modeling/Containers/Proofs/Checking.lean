import Containers.Proofs.Validation
import Mathlib.Data.List.Perm.Subperm

/-! What the check of a tree decides, for an arena with whatever links, colours and keys. The
way down from the root follows links that nobody has looked at before, but the keys of the
nodes on it must lie between bounds that close in with every step, so no node is met twice
and the way ends. What passes is spelled out by a shape; its keys increase, hence its slots
are distinct, and if there are as many as the arena has, then every slot is among them. -/
namespace Containers.Tree
variable {α κ β γ : Type}

section Judging

/-- The faults of a check: a broken condition, or a link to a slot that does not exist. -/
inductive Rejects : Fault → Prop where
  | stale : Rejects .outOfRange
  | broken (violation : Violation) : Rejects (.panicked (.invalidTree violation))

/-- A check comes to an end: it answers and this holds of the answer, or it rejects. -/
def Judges (checked : Except Fault β) (passed : β → Prop) : Prop :=
  match checked with
  | .ok answer => passed answer
  | .error fault => Rejects fault

variable {tree : Tree α} {link child : Link} {passed : β → Prop} {side : Side}

theorem Judges.bind {checked : Except Fault β} {next : β → Except Fault γ} {settled : γ → Prop}
    (first : Judges checked passed) (rest : ∀ answer, passed answer → Judges (next answer) settled) :
    Judges (checked >>= next) settled := by
  cases checked with
  | ok answer => exact rest answer first
  | error fault => exact first

theorem Judges.mono {checked : Except Fault β} {settled : β → Prop} (judges : Judges checked passed)
    (finish : ∀ answer, passed answer → settled answer) : Judges checked settled := by
  cases checked with
  | ok answer => exact finish answer judges
  | error fault => exact judges

theorem Judges.map {checked : Except Fault β} {f : β → γ} {settled : γ → Prop} (first : Judges checked passed)
    (finish : ∀ answer, passed answer → settled (f answer)) : Judges (f <$> checked) settled := by
  cases checked with
  | ok answer => exact finish answer first
  | error fault => exact first

/-- Conditions that are looked at in one case only hold in that case. -/
theorem Judges.guarded {given : Prop} [Decidable given] {holds : Prop} {first : Except Fault β}
    {second : β → Except Fault Unit} {rest : Unit → Except Fault γ} {settled : γ → Prop}
    (looks : given → Judges (first >>= second) fun _ => holds)
    (onward : (given → holds) → Judges (rest ()) settled) :
    Judges (if given then first >>= fun answer => second answer >>= rest else rest ()) settled := by
  split
  · rename_i present
    rw [← bind_assoc]
    exact (looks present).bind fun _ holds => onward fun _ => holds
  · rename_i missing
    exact onward fun present => absurd present missing

theorem judges_check (condition : Bool) (violation : Violation) :
    Judges (check condition violation) fun _ => condition = true := by
  unfold check
  split
  · rename_i holds
    exact holds
  · exact .broken violation

theorem judges_nodeAt (tree : Tree α) (slot : Nat) :
    Judges (tree.nodeAt slot) fun node => tree.nodes.items[slot]? = some node := by
  unfold nodeAt
  split
  · rename_i found
    exact found
  · exact .stale

theorem judges_links (tree : Tree α) (link : Link) : Judges (tree.links link) fun links => links = tree.record link := by
  cases link with
  | none => rfl
  | some slot =>
    apply (judges_nodeAt tree slot).map
    exact fun node found => (record_eq found).symm

theorem judges_child (tree : Tree α) (side : Side) (link : Link) :
    Judges (tree.child side link) fun child => child = (tree.record link).child side :=
  (judges_links tree link).map fun _ same => congrArg (Links.child side) same

theorem judges_parent (tree : Tree α) (link : Link) :
    Judges (tree.parent link) fun parent => parent = (tree.record link).parent :=
  (judges_links tree link).map fun _ same => congrArg Links.parent same

theorem judges_color (tree : Tree α) (link : Link) :
    Judges (tree.color link) fun color => color = (tree.record link).color :=
  (judges_links tree link).map fun _ same => congrArg Links.color same

theorem judges_keyAt [Keyed α κ] (tree : Tree α) (slot : Nat) :
    Judges (tree.keyAt slot) fun key => ∃ x, tree.values[slot]? = some x ∧ key = Keyed.key x := by
  apply (judges_nodeAt tree slot).map
  intro node found
  exact ⟨node.value, by rw [values_eq, found]; rfl, rfl⟩

theorem judges_hangsBelow (tree : Tree α) (parent link : Link) : Judges (tree.hangsBelow parent link) fun _ => True := by
  unfold hangsBelow
  split
  · trivial
  · apply (judges_child tree .left parent).bind
    intro child _
    split
    · trivial
    · exact (judges_child tree .right parent).bind fun _ _ => trivial

theorem judges_checkParentOf (tree : Tree α) (side : Side) (child link : Link) :
    Judges (tree.checkParentOf side child link) fun _ => child ≠ none → (tree.record child).parent = link := by
  unfold checkParentOf
  split
  · apply (judges_parent tree child).bind
    rintro parent rfl
    apply (judges_check _ _).mono
    intro _ same _
    exact of_decide_eq_true same
  · rename_i missing
    exact fun given => absurd given missing

theorem judges_checkBlack (tree : Tree α) (side : Side) (child link : Link) :
    Judges (tree.checkBlack side child link) fun _ => (tree.record child).color = .black := by
  apply (judges_color tree child).bind
  rintro color rfl
  apply (judges_check _ _).mono
  intro _ black
  exact of_decide_eq_true black

end Judging

/-- Slots that hold values are slots of the arena. -/
theorem subset_range_of_filled {tree : Tree α} {slots : List Nat}
    (filled : ∀ slot ∈ slots, ∃ x, tree.values[slot]? = some x) : slots ⊆ List.range tree.size := by
  intro slot member
  obtain ⟨x, found⟩ := filled slot member
  rw [List.mem_range, ← size_values]
  exact (Array.getElem?_eq_some_iff.mp found).1

section Bounds
variable [Keyed α κ] [Ord κ] {tree : Tree α} {lower upper lower' upper' : Option κ} {path : List Nat} {slot : Nat}
  {x : α} {values others : List α}

/-- The slots on the way down are distinct, and none of their keys lies between the bounds. -/
structure Descent (tree : Tree α) (lower upper : Option κ) (path : List Nat) : Prop where
  distinct : path.Nodup
  outside : ∀ slot ∈ path, ∃ x, tree.values[slot]? = some x ∧ ¬ Between lower upper [x]

theorem Descent.length_le (descent : tree.Descent lower upper path) : path.length ≤ tree.size := by
  have filled : ∀ slot ∈ path, ∃ x, tree.values[slot]? = some x := by
    intro slot member
    obtain ⟨x, found, -⟩ := descent.outside slot member
    exact ⟨x, found⟩
  have live := subset_range_of_filled filled
  have fits := (List.subperm_of_subset descent.distinct live).length_le
  rwa [List.length_range] at fits

/-- A slot whose key lies between the bounds is not on the way down yet. -/
theorem Descent.not_mem (descent : tree.Descent lower upper path) (filled : tree.values[slot]? = some x)
    (between : Between lower upper [x]) : slot ∉ path := by
  intro member
  obtain ⟨y, filled', outside⟩ := descent.outside slot member
  rw [filled] at filled'
  cases filled'
  exact outside between

/-- Going down, the slot that is left behind has no key between the bounds of what lies below. -/
theorem Descent.below (descent : tree.Descent lower upper path) (filled : tree.values[slot]? = some x)
    (between : Between lower upper [x])
    (narrower : ∀ y : α, Between lower' upper' [y] → Between lower upper [y]) (left : ¬ Between lower' upper' [x]) :
    tree.Descent lower' upper' (slot :: path) := by
  constructor
  · exact List.nodup_cons.mpr ⟨descent.not_mem filled between, descent.distinct⟩
  · intro other member
    rcases List.mem_cons.mp member with rfl | member
    · exact ⟨x, filled, left⟩
    · obtain ⟨y, filled', outside⟩ := descent.outside other member
      exact ⟨y, filled', fun inside => outside (narrower y inside)⟩

variable [Std.TransOrd κ]

theorem Between.of_left (between : Between lower upper [x]) (below : Between lower (some (Keyed.key x)) values) :
    Between lower upper values := by
  constructor
  · exact below.above
  · intro bound given y member
    exact Std.TransCmp.lt_trans (below.below _ rfl y member) (between.below bound given x List.mem_cons_self)

theorem Between.of_right (between : Between lower upper [x]) (above : Between (some (Keyed.key x)) upper values) :
    Between lower upper values := by
  constructor
  · intro bound given y member
    exact Std.TransCmp.lt_trans (between.above bound given x List.mem_cons_self) (above.above _ rfl y member)
  · exact above.below

theorem Descent.left (descent : tree.Descent lower upper path) (filled : tree.values[slot]? = some x)
    (between : Between lower upper [x]) : tree.Descent lower (some (Keyed.key x)) (slot :: path) := by
  apply descent.below filled between
  · exact fun y below => between.of_left below
  · intro inside
    have less := inside.below _ rfl x List.mem_cons_self
    simp only [Std.ReflCmp.compare_self, reduceCtorEq] at less

theorem Descent.right (descent : tree.Descent lower upper path) (filled : tree.values[slot]? = some x)
    (between : Between lower upper [x]) : tree.Descent (some (Keyed.key x)) upper (slot :: path) := by
  apply descent.below filled between
  · exact fun y above => between.of_right above
  · intro inside
    have less := inside.above _ rfl x List.mem_cons_self
    simp only [Std.ReflCmp.compare_self, reduceCtorEq] at less

/-- What lies on both sides of a value between the bounds is in order and lies between them as well. -/
theorem sorted_between (between : Between lower upper [x]) (below : Between lower (some (Keyed.key x)) values)
    (above : Between (some (Keyed.key x)) upper others) (sorted : Sorted values) (sorted' : Sorted others) :
    Sorted (values ++ x :: others) ∧ Between lower upper (values ++ x :: others) := by
  have less : ∀ y ∈ values, compare (Keyed.key y) (Keyed.key x) = .lt := below.below _ rfl
  have greater : ∀ y ∈ others, compare (Keyed.key x) (Keyed.key y) = .lt := above.above _ rfl
  have across : ∀ y ∈ values, ∀ z ∈ others, compare (Keyed.key y) (Keyed.key z) = .lt := by
    intro y inside z inside'
    exact Std.TransCmp.lt_trans (less y inside) (greater z inside')
  have each : ∀ y ∈ values ++ x :: others, Between lower upper [y] := by
    intro y member
    simp only [List.mem_append, List.mem_cons] at member
    rcases member with inside | rfl | inside
    · exact (between.of_left below).single inside
    · exact between
    · exact (between.of_right above).single inside
  constructor
  · exact Listing.sorted_middle.mpr ⟨List.pairwise_append.mpr ⟨sorted, sorted', across⟩, less, greater⟩
  · constructor
    · exact fun bound given y member => (each y member).above bound given y List.mem_cons_self
    · exact fun bound given y member => (each y member).below bound given y List.mem_cons_self

end Bounds

section Soundness
variable [Keyed α κ] [Ord κ] {tree : Tree α} {parent link : Link} {lower upper : Option κ} {answer : Nat × Nat}
  {shape left right : Shape} {slot depth : Nat} {hue : Color} {path : List Nat} {x : α}

/-- A subtree that passes is spelled out by a shape: its keys increase between the bounds,
and its nodes and the black ones on every way down are as many as is answered. -/
structure Passes (tree : Tree α) (parent link : Link) (lower upper : Option κ) (answer : Nat × Nat) (shape : Shape) :
    Prop where
  link : link = shape.link
  holds : shape.Holds tree.record parent
  filled : ∀ slot ∈ shape.slots, ∃ x, tree.values[slot]? = some x
  sorted : Sorted (tree.listing shape.slots)
  between : Between lower upper (tree.listing shape.slots)
  count : answer.1 = shape.slots.length
  balanced : ∃ rank, answer.2 = rank + 1 ∧ shape.Balanced rank

theorem passes_leaf (tree : Tree α) (parent : Link) (lower upper : Option κ) :
    tree.Passes parent none lower upper (0, 1) .leaf where
  link := rfl
  holds := trivial
  filled := nofun
  sorted := .nil
  between := ⟨fun _ _ => nofun, fun _ _ => nofun⟩
  count := rfl
  balanced := ⟨0, rfl, rfl⟩

variable [Std.TransOrd κ]

theorem passes_node {leftLink rightLink : Link} {leftCount rightCount height : Nat}
    (own : tree.record (some slot) = ⟨leftLink, rightLink, parent, hue⟩) (filled : tree.values[slot]? = some x)
    (between : Between lower upper [x])
    (fromLeft : tree.Passes (some slot) leftLink lower (some (Keyed.key x)) (leftCount, height) left)
    (fromRight : tree.Passes (some slot) rightLink (some (Keyed.key x)) upper (rightCount, height) right)
    (apart : hue = .red → left.color = .black ∧ right.color = .black) :
    tree.Passes parent (some slot) lower upper
      (leftCount + rightCount + 1, height + if hue = .black then 1 else 0) (.node hue left slot right) := by
  have listing : tree.listing (Shape.node hue left slot right).slots =
      tree.listing left.slots ++ x :: tree.listing right.slots := by
    rw [Shape.slots, listing_append, listing_cons filled]
  obtain ⟨sorted, between'⟩ := sorted_between between fromLeft.between fromRight.between fromLeft.sorted fromRight.sorted
  constructor
  · rfl
  · refine ⟨?_, fromLeft.holds, fromRight.holds⟩
    rw [own, fromLeft.link, fromRight.link]
  · intro other member
    simp only [Shape.slots, List.mem_append, List.mem_cons] at member
    rcases member with member | rfl | member
    · exact fromLeft.filled other member
    · exact ⟨x, filled⟩
    · exact fromRight.filled other member
  · rwa [listing]
  · rwa [listing]
  · simp only [Shape.slots, List.length_append, List.length_cons, ← fromLeft.count, ← fromRight.count]
    omega
  · obtain ⟨rank, isRank, leftBalanced⟩ := fromLeft.balanced
    obtain ⟨rank', isRank', rightBalanced⟩ := fromRight.balanced
    obtain rfl : rank = rank' := by
      have same := isRank.symm.trans isRank'
      omega
    refine ⟨_, ?_, Shape.balanced_node leftBalanced rightBalanced apart⟩
    simp only at isRank
    omega

/-- Whatever the links are, the way down ends: there is no room on it for as many slots as the
number of steps allows for. A subtree that passes is spelled out by a shape. -/
theorem validateWithin_judges (sentinel : tree.sentinel.color = .black)
    (belongs : link ≠ none → (tree.record link).parent = parent) (descent : tree.Descent lower upper path)
    (enough : tree.size < path.length + depth) :
    Judges (tree.validateWithin depth link lower upper) fun answer =>
      ∃ shape, tree.Passes parent link lower upper answer shape := by
  induction depth generalizing link parent lower upper path with
  | zero =>
    have live := descent.length_le
    omega
  | succ depth ih =>
    cases link with
    | none => exact ⟨.leaf, passes_leaf tree parent lower upper⟩
    | some slot =>
      unfold validateWithin
      apply (judges_links tree (some slot)).bind
      rintro ⟨leftLink, rightLink, _, hue⟩ own
      obtain rfl := belongs (Option.some_ne_none slot)
      rw [← own]
      apply (judges_hangsBelow _ _ _).bind
      intro _ _
      apply (judges_check _ _).bind
      intro _ _
      apply (judges_checkParentOf tree .left _ _).bind
      intro _ leftBelongs
      apply (judges_checkParentOf tree .right _ _).bind
      intro _ rightBelongs
      extract_lets rest
      apply Judges.guarded
      · intro _
        apply (judges_checkBlack tree .left _ _).bind
        intro _ leftBlack
        apply (judges_checkBlack tree .right _ _).mono
        intro _ rightBlack
        exact And.intro leftBlack rightBlack
      intro apart
      apply (judges_keyAt tree slot).bind
      rintro key ⟨x, filled, rfl⟩
      apply (judges_check _ _).bind
      intro _ above
      apply (judges_check _ _).bind
      intro _ below
      -- from here on the slot belongs to the way down
      have between : Between lower upper [x] := between_singleton.mpr ⟨above, below⟩
      have enough' : tree.size < (slot :: path).length + depth := by
        rw [List.length_cons]
        omega
      apply (ih leftBelongs (descent.left filled between) enough').bind
      rintro ⟨leftCount, leftHeight⟩ ⟨left, fromLeft⟩
      apply (ih rightBelongs (descent.right filled between) enough').bind
      rintro ⟨rightCount, rightHeight⟩ ⟨right, fromRight⟩
      apply (judges_check _ _).bind
      intro _ same
      obtain rfl : leftHeight = rightHeight := of_decide_eq_true same
      rw [fromLeft.link, fromRight.link, fromLeft.holds.color_eq sentinel, fromRight.holds.color_eq sentinel] at apart
      exact ⟨_, passes_node own.symm filled between fromLeft fromRight apart⟩

end Soundness

section Decision
variable [Keyed α κ] [Ord κ] {tree : Tree α} {shape : Shape} {rank : Nat}

/-- A red-black tree over a whole arena, said of the arena alone. The links from the root on, and
the parent links against them, spell out a shape that has every slot once, and the root, if there
is one, has no parent; sentinel and root are black, no red node has a red child, and all ways down
pass equally many black nodes; the keys increase from left to right. -/
structure Lawful (tree : Tree α) (shape : Shape) (rank : Nat) : Prop where
  sentinel : tree.sentinel.color = .black
  root : tree.root = shape.link
  links : shape.Holds tree.record none
  reached : shape.slots.Perm (List.range tree.size)
  black : shape.color = .black
  apart : shape.RedsApart
  even : ∀ count ∈ shape.blackCounts, count = rank
  increasing : ((tree.listing shape.slots).map Keyed.key).Pairwise fun a b : κ => compare a b = .lt

theorem Lawful.linked (lawful : tree.Lawful shape rank) : tree.Linked shape where
  root := lawful.root
  holds := lawful.links
  distinct := lawful.reached.nodup_iff.mpr List.nodup_range
  live _ member := List.mem_range.mp (lawful.reached.mem_iff.mp member)

theorem Lawful.validate_eq (lawful : tree.Lawful shape rank) : tree.validate = .ok (rank + 1) := by
  have balanced : shape.Balanced rank := Shape.balanced_iff.mpr ⟨lawful.apart, lawful.even⟩
  have count : shape.slots.length = tree.size := by rw [lawful.reached.length_eq, List.length_range]
  exact lawful.linked.validate_eq lawful.sentinel lawful.black balanced (List.pairwise_map.mp lawful.increasing) count

variable [Std.TransOrd κ]

/-- Slots whose values have increasing keys are distinct. -/
theorem nodup_of_sorted {slots : List Nat} (filled : ∀ slot ∈ slots, ∃ x, tree.values[slot]? = some x)
    (sorted : Sorted (tree.listing slots)) : slots.Nodup := by
  apply (List.pairwise_filterMap.mp sorted).imp_of_mem
  rintro slot _ member - less rfl
  obtain ⟨x, found⟩ := filled slot member
  have below := less x found x found
  simp only [Std.ReflCmp.compare_self, reduceCtorEq] at below

/-- As many slots as the arena has are all of its slots. -/
theorem Passes.reached {count height : Nat} {lower upper : Option κ} {parent link : Link}
    (passes : tree.Passes parent link lower upper (count, height) shape) (full : count = tree.size) :
    shape.slots.Perm (List.range tree.size) := by
  have live := subset_range_of_filled passes.filled
  have distinct := nodup_of_sorted passes.filled passes.sorted
  apply (List.subperm_of_subset distinct live).perm_of_length_le
  rw [List.length_range, ← full]
  exact Nat.le_of_eq passes.count

theorem validate_judges (tree : Tree α) :
    Judges tree.validate fun height => ∃ shape rank, height = rank + 1 ∧ tree.Lawful shape rank := by
  unfold validate
  apply (judges_color tree tree.root).bind
  rintro color rfl
  apply (judges_check _ _).bind
  intro _ rootBlack
  apply (judges_check _ _).bind
  intro _ sentinelBlack
  have sentinel : tree.sentinel.color = .black := of_decide_eq_true sentinelBlack
  extract_lets rest
  apply Judges.guarded
  · intro _
    apply (judges_parent tree tree.root).bind
    rintro parent rfl
    exact judges_check _ _
  intro orphan
  have belongs : tree.root ≠ none → (tree.record tree.root).parent = none := fun given =>
    of_decide_eq_true (orphan given)
  have descent : tree.Descent (none : Option κ) none [] := ⟨List.nodup_nil, nofun⟩
  apply (validateWithin_judges sentinel belongs descent (by simp [stepLimit])).bind
  rintro ⟨count, height⟩ ⟨shape, passes⟩
  apply (judges_check _ _).bind
  intro _ full
  obtain ⟨rank, isRank, balanced⟩ := passes.balanced
  obtain ⟨apart, even⟩ := Shape.balanced_iff.mp balanced
  rw [passes.link, passes.holds.color_eq sentinel] at rootBlack
  exact ⟨shape, rank, isRank, sentinel, passes.link, passes.holds, passes.reached (of_decide_eq_true full),
    of_decide_eq_true rootBlack, apart, even, List.pairwise_map.mpr passes.sorted⟩

/-- The check of any arena comes to an end, with a height or at a broken condition or a link to
nowhere. It answers a height just when the arena is a red-black tree over all of its slots with
one black node less on every way down. -/
theorem validate_decides (tree : Tree α) :
    (∀ fault, tree.validate = .error fault → Rejects fault) ∧
      ∀ height, tree.validate = .ok height ↔ ∃ shape rank, height = rank + 1 ∧ tree.Lawful shape rank := by
  have judges := validate_judges tree
  constructor
  · intro fault failed
    rwa [failed] at judges
  · intro height
    constructor
    · intro passed
      rwa [passed] at judges
    · rintro ⟨shape, rank, rfl, lawful⟩
      exact lawful.validate_eq

end Decision

/-- Two nodes, one of which hangs on both sides of the other. -/
def shared : Tree (Member Caseless) where
  nodes := ⟨.inline 2, #[⟨⟨some 1, some 1, none, .black⟩, ⟨⟨"b"⟩⟩⟩, ⟨⟨none, none, some 0, .red⟩, ⟨⟨"A"⟩⟩⟩]⟩
  root := some 0

/-- All the links of a node that hangs on two sides agree, but its key is out of order on one of them. -/
theorem validate_decides_shared : Std.TransOrd Caseless ∧
    shared.validate = .error (.panicked (.invalidTree (.keysOutOfOrder (some 1)))) ∧
      ∀ shape rank, ¬ shared.Lawful shape rank := by
  have rejected : shared.validate = .error (.panicked (.invalidTree (.keysOutOfOrder (some 1)))) := by
    decide +kernel
  constructor
  · infer_instance
  · constructor
    · exact rejected
    · intro shape rank lawful
      have passed := ((validate_decides shared).2 (rank + 1)).mpr ⟨shape, rank, rfl, lawful⟩
      rw [rejected] at passed
      cases passed

end Containers.Tree
