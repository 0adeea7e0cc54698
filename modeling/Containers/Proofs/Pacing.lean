import Containers.Proofs.Managed
import Containers.Proofs.Twins

/-! Steps with a bound on the room beside the same steps without one. Where the run
without a bound is granted all the growth that it asks for, the other does the same as
long as what is left fits, and panics for want of room otherwise. -/
namespace Containers

/-- A panic for want of room: the slots cannot move, or there would be too many of them. -/
inductive Fault.Cramped : Fault → Prop where
  | fixed (requested capacity : Nat) : Cramped (.panicked (.fixedCapacity requested capacity))
  | overflow : Cramped (.panicked .capacityOverflow)

/-- Growth was not granted: the allocator refused, or there is no room to be had. -/
inductive Fault.Ungranted : Fault → Prop where
  | refused (layout : Layout) : Ungranted (.refused layout)
  | aborted (layout : Layout) : Ungranted (.aborted layout)
  | cramped {fault : Fault} (cramped : fault.Cramped) : Ungranted fault

namespace Fault
variable {fault : Fault}

theorem Cramped.abort_eq (cramped : fault.Cramped) : fault.abort = fault := by
  cases cramped with
  | fixed requested capacity => rfl
  | overflow => rfl

theorem Ungranted.abort (ungranted : fault.Ungranted) : fault.abort.Ungranted := by
  cases ungranted with
  | refused layout => exact .aborted layout
  | aborted layout => exact .aborted layout
  | cramped cramped =>
    rw [cramped.abort_eq]
    exact .cramped cramped

end Fault

section Steps
variable {σ β γ : Type} {fits : σ → Prop} {like : Host σ → Host σ → Prop} {free fixed : Host σ}

/-- Beside a step without a bound on the room, which growth was granted to, the bounded
one ends in the same way if what is left fits, and panics for want of room if not. -/
def Step.Paced (fits : σ → Prop) (like : Host σ → Host σ → Prop) (free fixed : Step σ β) : Prop :=
  (∃ fault, free.outcome = .error fault ∧ fault.Ungranted) ∨
    (fits free.after.container → fixed.outcome = free.outcome ∧ like free.after fixed.after) ∧
    (¬ fits free.after.container → ∃ fault, fixed.outcome = .error fault ∧ fault.Cramped)

/-- The operation from a host without a bound on the room, beside itself from one with it. -/
def Paces (fits : σ → Prop) (like : Host σ → Host σ → Prop) (op : Op σ β) (free fixed : Host σ) : Prop :=
  (op.step free).Paced fits like (op.step fixed)

theorem Step.Paced.mono {like' : Host σ → Host σ → Prop} {one other : Step σ β} (paced : one.Paced fits like other)
    (implies : fits one.after.container → like one.after other.after → like' one.after other.after) :
    one.Paced fits like' other := by
  obtain hindered | ⟨within, beyond⟩ := paced
  · exact .inl hindered
  · refine .inr ⟨fun room => ?_, beyond⟩
    obtain ⟨outcome, alike⟩ := within room
    exact ⟨outcome, implies room alike⟩

/-- What an operation does without a bound says what it does with one. -/
theorem paces_iff_leads {op : Op σ β} : Paces fits like op free fixed ↔
    Leads op free
      (fun answer after => (fits after.container → ∃ after', op fixed = .ok answer after' ∧ like after after') ∧
        (¬ fits after.container → ∃ fault after', op fixed = .error fault after' ∧ fault.Cramped))
      (fun fault after => fault.Ungranted ∨
        (fits after.container → ∃ after', op fixed = .error fault after' ∧ like after after') ∧
        (¬ fits after.container → ∃ fault' after', op fixed = .error fault' after' ∧ fault'.Cramped)) := by
  unfold Paces Step.Paced Leads Op.step
  cases op free with
  | ok answer after => cases op fixed <;> simp [and_assoc]
  | error fault after => cases op fixed <;> simp [and_assoc, eq_comm]

/-- An operation that is twinned does not look at the bound. -/
theorem Twinned.paces {op : Op σ β} (twinned : Twinned like op) (alike : like free fixed)
    (stays : Leads op free (fun _ after => fits after.container) fun _ after => fits after.container) :
    Paces fits like op free fixed := by
  refine paces_iff_leads.mpr (((twinned free fixed alike).and stays).mono ?_ ?_)
  · rintro answer after ⟨same, room⟩
    exact ⟨fun _ => same, fun beyond => absurd room beyond⟩
  · rintro fault after ⟨same, room⟩
    exact .inr ⟨fun _ => same, fun beyond => absurd room beyond⟩

/-- An operation on a part, where the change of the whole is one of the part. -/
theorem paces_part {τ : Type} {fits' : τ → Prop} {shift : σ → σ} {shift' : τ → τ} {read : σ → τ} {write : τ → σ → σ}
    {op : Op τ β} (fitting : ∀ part container, fits (write part container) ↔ fits' part)
    (writes : ∀ part container, write (shift' part) (shift container) = shift (write part container))
    (moved : Moved shift free fixed)
    (paces : Paces fits' (Moved shift') op ⟨read free.container, free.pool⟩ ⟨read fixed.container, fixed.pool⟩) :
    Paces fits (Moved shift) (Op.part read write op) free fixed := by
  have crams : (∃ fault after', op ⟨read fixed.container, fixed.pool⟩ = .error fault after' ∧ fault.Cramped) →
      ∃ fault after', Op.part read write op fixed = .error fault after' ∧ fault.Cramped := by
    rintro ⟨fault, after', ran, cramped⟩
    have fails : Op.part read write op fixed =
        .error fault ⟨write after'.container fixed.container, after'.pool⟩ := by simp only [Op.part, ran]
    exact ⟨fault, _, fails, cramped⟩
  rw [paces_iff_leads] at paces ⊢
  rw [leads_part]
  refine paces.mono ?_ ?_
  · rintro answer after ⟨within, beyond⟩
    rw [fitting]
    refine ⟨fun room => ?_, fun full => crams (beyond full)⟩
    obtain ⟨after', ran, same⟩ := within room
    exact ⟨_, by simp only [Op.part, ran], moved.write writes same⟩
  · rintro fault after (hindered | ⟨within, beyond⟩)
    · exact .inl hindered
    · rw [fitting]
      refine .inr ⟨fun room => ?_, fun full => crams (beyond full)⟩
      obtain ⟨after', ran, same⟩ := within room
      exact ⟨_, by simp only [Op.part, ran], moved.write writes same⟩

/-- The containers may differ as long as what follows from them is the same. -/
theorem paces_reading {next : σ → Op σ β} (same : next fixed.container = next free.container)
    (rest : Paces fits like (next free.container) free fixed) : Paces fits like (Op.current >>= next) free fixed := by
  have ran : (Op.current >>= next) fixed = next free.container fixed := congrFun same fixed
  rw [paces_iff_leads] at rest ⊢
  apply current_then
  rwa [ran]

theorem paces_orAbort {op : Op σ β} (paces : Paces fits like op free fixed) :
    Paces fits like (Op.orAbort op) free fixed := by
  have lifts : ∀ {fault after'}, op fixed = .error fault after' → Op.orAbort op fixed = .error fault.abort after' := by
    intro fault after' ran
    simp only [Op.orAbort, ran]
    cases fault <;> rfl
  have crams : (∃ fault after', op fixed = .error fault after' ∧ fault.Cramped) →
      ∃ fault after', Op.orAbort op fixed = .error fault after' ∧ fault.Cramped := by
    rintro ⟨fault, after', ran, cramped⟩
    exact ⟨fault, after', cramped.abort_eq ▸ lifts ran, cramped⟩
  rw [paces_iff_leads] at paces ⊢
  rw [leads_orAbort]
  refine paces.mono ?_ ?_
  · rintro answer after ⟨within, beyond⟩
    refine ⟨fun room => ?_, fun full => crams (beyond full)⟩
    obtain ⟨after', ran, alike⟩ := within room
    exact ⟨after', by simp only [Op.orAbort, ran], alike⟩
  · rintro fault after (hindered | ⟨within, beyond⟩)
    · exact .inl hindered.abort
    · refine .inr ⟨fun room => ?_, fun full => crams (beyond full)⟩
      obtain ⟨after', ran, alike⟩ := within room
      exact ⟨after', lifts ran, alike⟩

/-- What follows an operation does not look at the bound, nor does it change whether
what is left fits. -/
theorem paces_then {op : Op σ β} {next : β → Op σ γ} (first : Paces fits like op free fixed)
    (rest : ∀ answer, Twinned like (next answer))
    (stays : Leads op free
      (fun answer middle => Leads (next answer) middle
        (fun _ after => fits after.container ↔ fits middle.container)
        fun _ after => fits after.container ↔ fits middle.container)
      fun _ _ => True) :
    Paces fits like (op >>= next) free fixed := by
  have crams : (∃ fault after', op fixed = .error fault after' ∧ fault.Cramped) →
      ∃ fault after', (op >>= next) fixed = .error fault after' ∧ fault.Cramped := by
    rintro ⟨fault, after', ran, cramped⟩
    exact ⟨fault, after', by simp only [bind, EStateM.bind, ran], cramped⟩
  rw [paces_iff_leads] at first ⊢
  rw [leads_bind]
  refine (first.and stays).mono ?_ ?_
  · rintro answer middle ⟨⟨within, beyond⟩, stays⟩
    by_cases room : fits middle.container
    · obtain ⟨middle', ran, alike⟩ := within room
      have goes : (op >>= next) fixed = next answer middle' := by simp only [bind, EStateM.bind, ran]
      rw [goes]
      refine ((rest answer middle middle' alike).and stays).mono ?_ ?_
      · rintro last after ⟨same, kept⟩
        exact ⟨fun _ => same, fun full => absurd (kept.mpr room) full⟩
      · rintro fault after ⟨same, kept⟩
        exact .inr ⟨fun _ => same, fun full => absurd (kept.mpr room) full⟩
    · have panics := crams (beyond room)
      refine stays.mono ?_ ?_
      · exact fun last after kept => ⟨fun fitting => absurd (kept.mp fitting) room, fun _ => panics⟩
      · exact fun fault after kept => .inr ⟨fun fitting => absurd (kept.mp fitting) room, fun _ => panics⟩
  · rintro fault after ⟨hindered | ⟨within, beyond⟩, -⟩
    · exact .inl hindered
    · refine .inr ⟨fun room => ?_, fun full => crams (beyond full)⟩
      obtain ⟨after', ran, alike⟩ := within room
      exact ⟨after', by simp only [bind, EStateM.bind, ran], alike⟩

/-- An answer that is passed on. -/
theorem paces_reply {op : Op σ β} {next : β → Op σ γ} (answers : ∀ answer, ∃ reply, next answer = pure reply)
    (paces : Paces fits like op free fixed) : Paces fits like (op >>= next) free fixed := by
  refine paces_then paces (fun answer => ?_) ?_
  · obtain ⟨reply, isReply⟩ := answers answer
    exact isReply ▸ twinned_pure reply
  · refine (leads_trivial op).mono (fun answer middle _ => ?_) fun _ _ _ => trivial
    obtain ⟨reply, isReply⟩ := answers answer
    rw [isReply]
    exact Iff.rfl

theorem paces_map (f : β → γ) {op : Op σ β} (paces : Paces fits like op free fixed) :
    Paces fits like (f <$> op) free fixed := by
  rw [map_eq_pure_bind]
  exact paces_reply (fun answer => ⟨f answer, rfl⟩) paces

/-- Before anything asks for room, an operation does not look at the bound. -/
theorem paces_after {op : Op σ β} {next : β → Op σ γ} (first : Twinned like op) (alike : like free fixed)
    (rest : Leads op free
      (fun answer middle => ∀ middle', like middle middle' → Paces fits like (next answer) middle middle')
      fun _ after => fits after.container) :
    Paces fits like (op >>= next) free fixed := by
  rw [paces_iff_leads, leads_bind]
  refine ((first free fixed alike).and rest).mono ?_ ?_
  · rintro answer middle ⟨⟨middle', ran, alike'⟩, rest⟩
    have goes : (op >>= next) fixed = next answer middle' := by simp only [bind, EStateM.bind, ran]
    rw [goes]
    exact paces_iff_leads.mp (rest middle' alike')
  · rintro fault after ⟨⟨after', ran, alike'⟩, room⟩
    exact .inr ⟨fun _ => ⟨after', by simp only [bind, EStateM.bind, ran], alike'⟩, fun full => absurd room full⟩

end Steps

namespace Session
variable {σ κ ρ : Type} {perform : κ → Op σ ρ} {portable : κ → Prop} {fits : σ → Prop}

/-- Two runs of the same commands, only the second of which has a bound on the room: as
long as the first is granted all the growth that it asks for and what is left fits, both
end every command in the same way and show the same; and the command after which it
would not fit panics for want of room in the second. -/
def Abreast (perform : κ → Op σ ρ) (fits : σ → Prop) (same : σ → σ → Prop) : List κ → Host σ → Host σ → Prop
  | [], _, _ => True
  | command :: rest, free, fixed =>
    ((perform command).step free).Paced fits
      (fun free fixed => same free.container fixed.container ∧ Abreast perform fits same rest free fixed)
      ((perform command).step fixed)

/-- What every command keeps carries both runs abreast. -/
theorem abreast_of_step {same : σ → σ → Prop} {like : Host σ → Host σ → Prop}
    (shows : ∀ free fixed, like free fixed → same free.container fixed.container)
    (keeps : ∀ command, portable command → ∀ free fixed, like free fixed → Paces fits like (perform command) free fixed)
    (commands : List κ) (allowed : ∀ command ∈ commands, portable command) {free fixed : Host σ}
    (alike : like free fixed) : Abreast perform fits same commands free fixed := by
  induction commands generalizing free fixed with
  | nil => trivial
  | cons command rest ih =>
    have step := keeps command (allowed command List.mem_cons_self) free fixed alike
    refine step.mono fun _ alike' => ⟨shows _ _ alike', ih (fun later member => ?_) alike'⟩
    exact allowed later (List.mem_cons_of_mem _ member)

end Session

end Containers
