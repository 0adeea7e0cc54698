import Containers.Proofs.Outcome

/-! A computation from two states side by side. It may be blind to a change of the state:
it does the same whether the change was made or not, and the change is still there
afterwards. More generally two states may be alike, and the computation is twinned if
it ends in the same way from both and leaves states that are alike. -/
namespace Containers

section Rules
variable {ε σ β γ : Type} {shift : σ → σ}

/-- After the change of the state the computation answers or fails as without it, and
leaves what it leaves without it, changed in the same way. -/
def Blind (shift : σ → σ) (op : EStateM ε σ β) : Prop :=
  ∀ state, Leads op state (fun answer after => op (shift state) = .ok answer (shift after))
    fun fault after => op (shift state) = .error fault (shift after)

theorem blind_pure (answer : β) : Blind shift (pure answer : EStateM ε σ β) := by
  intro state
  exact rfl

theorem blind_throw (fault : ε) : Blind shift (throw fault : EStateM ε σ β) := by
  intro state
  exact rfl

theorem blind_bind {op : EStateM ε σ β} {next : β → EStateM ε σ γ} (first : Blind shift op)
    (rest : ∀ answer, Blind shift (next answer)) : Blind shift (op >>= next) := by
  intro state
  rw [leads_bind]
  refine (first state).mono (fun answer middle ran => ?_) fun fault after ran => ?_
  · refine (rest answer middle).mono (fun _ after ran' => ?_) fun _ after ran' => ?_
    · simp only [bind, EStateM.bind, ran, ran']
    · simp only [bind, EStateM.bind, ran, ran']
  · simp only [bind, EStateM.bind, ran]

end Rules

section Twins
variable {ε σ β γ : Type} {alike : σ → σ → Prop}

/-- From two states that are alike the computation answers the same or fails in the
same way, and it leaves states that are alike. -/
def Twinned (alike : σ → σ → Prop) (op : EStateM ε σ β) : Prop :=
  ∀ one other, alike one other → Leads op one
    (fun answer after => ∃ after', op other = .ok answer after' ∧ alike after after')
    fun fault after => ∃ after', op other = .error fault after' ∧ alike after after'

theorem twinned_pure (answer : β) : Twinned alike (pure answer : EStateM ε σ β) :=
  fun _ other same => ⟨other, rfl, same⟩

theorem twinned_throw (fault : ε) : Twinned alike (throw fault : EStateM ε σ β) :=
  fun _ other same => ⟨other, rfl, same⟩

theorem twinned_bind {op : EStateM ε σ β} {next : β → EStateM ε σ γ} (first : Twinned alike op)
    (rest : ∀ answer, Twinned alike (next answer)) : Twinned alike (op >>= next) := by
  intro one other same
  rw [leads_bind]
  refine (first one other same).mono ?_ ?_
  · rintro answer middle ⟨middle', ran, same'⟩
    refine (rest answer middle middle' same').mono ?_ ?_
    · rintro answer' after ⟨after', ran', same''⟩
      exact ⟨after', by simp only [bind, EStateM.bind, ran, ran'], same''⟩
    · rintro fault after ⟨after', ran', same''⟩
      exact ⟨after', by simp only [bind, EStateM.bind, ran, ran'], same''⟩
  · rintro fault after ⟨after', ran, same'⟩
    exact ⟨after', by simp only [bind, EStateM.bind, ran], same'⟩

theorem twinned_map (f : β → γ) {op : EStateM ε σ β} (twinned : Twinned alike op) : Twinned alike (f <$> op) := by
  rw [map_eq_pure_bind]
  exact twinned_bind twinned fun answer => twinned_pure (f answer)

end Twins

section TwinOperations
variable {σ β : Type} {alike : Host σ → Host σ → Prop}

theorem twinned_fail (cause : Panic) : Twinned alike (Op.fail cause : Op σ β) :=
  fun _ other same => ⟨other, rfl, same⟩

theorem twinned_require (condition : Prop) [Decidable condition] (cause : Panic) :
    Twinned alike (Op.require condition cause : Op σ Unit) := by
  unfold Op.require
  split
  · exact twinned_pure ()
  · exact twinned_fail cause

theorem twinned_orAbort {op : Op σ β} (twinned : Twinned alike op) : Twinned alike (Op.orAbort op) := by
  intro one other like
  rw [leads_orAbort]
  refine (twinned one other like).mono ?_ ?_
  · rintro answer after ⟨after', ran, same⟩
    exact ⟨after', by simp only [Op.orAbort, ran], same⟩
  · rintro fault after ⟨after', ran, same⟩
    refine ⟨after', ?_, same⟩
    simp only [Op.orAbort, ran]
    cases fault <;> rfl

end TwinOperations

section Moves
variable {σ τ β : Type} {shift : σ → σ}

/-- The second container is the first one after this change; the allocators may differ. -/
def Moved (shift : σ → σ) (one other : Host σ) : Prop :=
  other.container = shift one.container

theorem moved_alone {step : EStateM Fault σ β} (blind : Blind shift step) : Twinned (Moved shift) (Op.alone step) := by
  intro one other moved
  have same : other.container = shift one.container := moved
  rw [leads_alone]
  refine (blind one.container).mono (fun answer after ran => ?_) fun fault after ran => ?_
  · exact ⟨⟨shift after, other.pool⟩, by simp only [Op.alone, same, ran], rfl⟩
  · exact ⟨⟨shift after, other.pool⟩, by simp only [Op.alone, same, ran], rfl⟩

theorem moved_look {read : σ → Except Fault β} (same : ∀ container, read (shift container) = read container) :
    Twinned (Moved shift) (Op.look read) := by
  intro one other moved
  have reads : read other.container = read one.container := (congrArg read moved).trans (same one.container)
  simp only [Leads, Op.look, reads]
  cases read one.container with
  | ok answer => exact ⟨other, rfl, moved⟩
  | error fault => exact ⟨other, rfl, moved⟩

/-- What is read of the container does not show the change. -/
theorem moved_reading {next : σ → Op σ β} (same : ∀ container, next (shift container) = next container)
    (rest : ∀ container, Twinned (Moved shift) (next container)) :
    Twinned (Moved shift) (Op.current >>= next) := by
  intro one other moved
  have ran : (Op.current >>= next) other = next one.container other :=
    congrFun ((congrArg next moved).trans (same one.container)) other
  apply current_then
  rw [ran]
  exact rest one.container one other moved

theorem moved_update {change : σ → σ} (same : ∀ container, change (shift container) = shift (change container)) :
    Twinned (Moved shift) (Op.update change) :=
  fun one other moved => ⟨⟨change other.container, other.pool⟩, rfl,
    (congrArg change moved).trans (same one.container)⟩

theorem Moved.write {shift' : τ → τ} {write : τ → σ → σ} {one other : Host σ} {after after' : Host τ}
    (writes : ∀ part container, write (shift' part) (shift container) = shift (write part container))
    (moved : Moved shift one other) (same : Moved shift' after after') :
    Moved shift ⟨write after.container one.container, after.pool⟩
      ⟨write after'.container other.container, after'.pool⟩ := by
  obtain ⟨container, pool⟩ := other
  obtain ⟨part, pool'⟩ := after'
  obtain rfl : container = shift one.container := moved
  obtain rfl : part = shift' after.container := same
  exact writes after.container one.container

/-- The change of the whole is one of the part. -/
theorem moved_part {shift' : τ → τ} {read : σ → τ} {write : τ → σ → σ} {op : Op τ β}
    (reads : ∀ container, read (shift container) = shift' (read container))
    (writes : ∀ part container, write (shift' part) (shift container) = shift (write part container))
    (twinned : Twinned (Moved shift') op) : Twinned (Moved shift) (Op.part read write op) := by
  intro one other moved
  have inner : Moved shift' ⟨read one.container, one.pool⟩ ⟨read other.container, other.pool⟩ :=
    (congrArg read moved).trans (reads one.container)
  rw [leads_part]
  refine (twinned _ _ inner).mono ?_ ?_
  · rintro answer after ⟨after', ran, same⟩
    exact ⟨_, by simp only [Op.part, ran], moved.write writes same⟩
  · rintro fault after ⟨after', ran, same⟩
    exact ⟨_, by simp only [Op.part, ran], moved.write writes same⟩

end Moves

end Containers
