import Containers.Proofs.ManagedTrees

/-! Every run of every container balances its allocations, however its commands end. -/
namespace Containers

/-- In every state of every run that begins with this container, there is besides
the blocks that were outstanding before just the one that the container owns, if it
owns any, and nothing was freed but outstanding blocks. Dropping the container there
frees that block, and leaves what was outstanding before. -/
def Balances {σ κ ρ : Type} [Holding σ] (perform : κ → Op σ ρ) (container : σ) : Prop :=
  ∀ pool commands, ∀ host ∈ Session.states perform commands ⟨container, pool⟩,
    Ledger pool host ∧ Settled pool (Session.close host)

/-- A container that owns nothing yet balances if every command accounts for its blocks. -/
theorem balances_of_accounts {σ κ ρ : Type} [Holding σ] {perform : κ → Op σ ρ} {container : σ}
    (accounts : ∀ command, Accounts (perform command)) (bare : ∀ id, Holding.owned container id = none) :
    Balances perform container := by
  intro pool commands host member
  have ledger : Ledger pool host := by
    apply Session.states_keep (Ledger pool) _ commands (ledger_start bare pool) host member
    intro command host ledger
    rw [← leads_iff_step (perform command) fun _ after => Ledger pool after]
    exact accounts command pool host ledger
  exact ⟨ledger, ledger.close⟩

/-- Vectors, bare storages, sorted maps with one or many values for a key, trees and
ordered maps balance, whatever the elements are and whatever the allocators refuse.
Every move of a buffer is granted the new block while the old one is outstanding and
then frees the old one; one that fails frees nothing. -/
theorem allocations_balance {α κ ν : Type} [Stored α] [BEq α] [Inhabited α] [Shown α] [Keyed α κ] [Ord κ]
    [BEq κ] [Stored κ] [Shown κ] [Stored ν] [BEq ν] [Shown ν] (engine : Engine) :
    Balances (Vector.Command.perform (α := α)) ⟨engine.emptied, #[]⟩ ∧
    Balances (Storage.Command.perform (α := α)) ⟨engine.emptied, #[]⟩ ∧
    Balances (FlatMap.Command.perform (κ := κ) (ν := ν)) ⟨engine.emptied, #[]⟩ ∧
    Balances (FlatMultiMap.Command.perform (κ := κ) (ν := ν)) ⟨engine.emptied, #[]⟩ ∧
    Balances (Tree.Command.perform (α := α) (κ := κ)) { nodes := ⟨engine.emptied, #[]⟩ } ∧
    Balances (Map.Command.perform (κ := κ) (ν := ν)) { nodes := ⟨engine.emptied, #[]⟩ } ∧
    (∀ (host : Host (Storage α)) count, Leads (Storage.reallocate count) host
      (fun _ after => Storage.Moved host after)
      fun _ after => after.container = host.container ∧ Storage.Declined host.pool after.pool) ∧
    ∀ (host : Host (Storage α)) count, Leads (Storage.reallocateDiscarding count) host
      (fun _ after => Storage.Moved host after)
      fun _ after => after.container = host.container ∧ Storage.Declined host.pool after.pool := by
  have storage : ∀ {β : Type} [Stored β] (id : AllocatorId),
      Holding.owned (⟨engine.emptied, #[]⟩ : Storage β) id = none := fun id => engine.owned_emptied id
  refine ⟨?_, ?_, ?_, ?_, ?_, ?_, Storage.reallocate_moves, Storage.reallocateDiscarding_moves⟩
  · exact balances_of_accounts Vector.accounts_perform storage
  · exact balances_of_accounts Storage.accounts_perform storage
  · exact balances_of_accounts FlatMap.accounts_perform storage
  · exact balances_of_accounts FlatMultiMap.accounts_perform storage
  · exact balances_of_accounts Tree.accounts_perform storage
  · exact balances_of_accounts Map.accounts_perform storage

end Containers
