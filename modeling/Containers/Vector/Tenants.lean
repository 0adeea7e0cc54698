import Containers.Element.Basic
import Containers.Memory.StackBuffer
import Containers.Vector.Basic

/-! Vectors and bare blocks that share one stack buffer. Several vectors of
words and of bytes live on the buffer at a time, each made on its first use. -/
namespace Containers

/-- A stack buffer with the blocks granted to nobody in particular and the
vectors that live on it, each under a number. -/
structure Tenants where
  buffer : StackBuffer
  blocks : Array Block := #[]
  words : Nat → Option (Vector Int64) := fun _ => none
  bytes : Nat → Option (Vector UInt8) := fun _ => none

namespace Tenants

/-- What can be asked of a buffer and its tenants. -/
inductive Command where
  | allocate (size align : Nat)
  /-- Gives back the granted block of this number. -/
  | free (number : Nat)
  | pushWord (number : Nat) (x : Int64)
  | pushByte (number : Nat) (x : UInt8)
  | dropWords (number : Nat)
  | dropBytes (number : Nat)
  | text
  | reset

/-- What a buffer and its tenants answer. -/
inductive Reply where
  | done
  | block (block : Block)
  /-- What was asked for is no layout. -/
  | noLayout
  | words (v : Vector Int64)
  | bytes (v : Vector UInt8)
  | existed (value : Bool)
  | texts (ofBuffer ofHandle : String)

/-- The allocators as a vector on the buffer sees them. -/
def pool (tenants : Tenants) : Pool :=
  ⟨tenants.buffer.allocator, ⟨.endsWithin 0, 0, []⟩⟩

/-- A vector on the buffer before anything was stored. -/
def newVector (α : Type) : Vector α :=
  ⟨.heap .a 0 0, #[]⟩

/-- Pushes onto a vector that lives on the buffer, and puts the vector back
whether or not there was room. -/
def push [Stored α] (v : Vector α) (x : α)
    (store : Vector α → Tenants → Tenants) : EStateM Fault Tenants (Vector α) :=
  fun tenants =>
    let settle (after : Host (Vector α)) : Tenants :=
      store after.container { tenants with buffer := tenants.buffer.after after.pool.a }
    match Vector.tryPush x ⟨v, tenants.pool⟩ with
    | .ok _ after => .ok after.container (settle after)
    | .error fault after => .error fault (settle after)

/-- Drops a vector that lives on the buffer. -/
def drop [Stored α] (v : Vector α) (tenants : Tenants) : Tenants :=
  { tenants with
    buffer := tenants.buffer.after (Container.dispose v tenants.pool).a }

/-- The table with another entry under one number. -/
def setEntry (table : Nat → β) (number : Nat) (entry : β) : Nat → β :=
  fun n => if n = number then entry else table n

/-- Files a vector of words under a number, or nothing. -/
def setWords (number : Nat) (entry : Option (Vector Int64)) (tenants : Tenants) : Tenants :=
  { tenants with words := setEntry tenants.words number entry }

/-- Files a vector of bytes under a number, or nothing. -/
def setBytes (number : Nat) (entry : Option (Vector UInt8)) (tenants : Tenants) : Tenants :=
  { tenants with bytes := setEntry tenants.bytes number entry }

/-- Carries out a command. -/
def Command.perform : Command → EStateM Fault Tenants Reply
  | .allocate size align =>
    match Layout.make? size align with
    | none => return .noLayout
    | some layout => fun tenants =>
      match tenants.buffer.allocate layout with
      | (some block, buffer) =>
        .ok (.block block) { tenants with buffer, blocks := tenants.blocks.push block }
      | (none, buffer) => .error (.refused layout) { tenants with buffer }
  | .free number => do
    modify fun tenants =>
      match tenants.blocks[number]? with
      | some block => { tenants with buffer := tenants.buffer.free block }
      | none => tenants
    return .done
  | .pushWord number x => do
    let v := ((← get).words number).getD (newVector Int64)
    Reply.words <$> push v x fun v => setWords number (some v)
  | .pushByte number x => do
    let v := ((← get).bytes number).getD (newVector UInt8)
    Reply.bytes <$> push v x fun v => setBytes number (some v)
  | .dropWords number => do
    match (← get).words number with
    | some v =>
      modify fun tenants => setWords number none (drop v tenants)
      return .existed true
    | none => return .existed false
  | .dropBytes number => do
    match (← get).bytes number with
    | some v =>
      modify fun tenants => setBytes number none (drop v tenants)
      return .existed true
    | none => return .existed false
  | .text => do
    let buffer := (← get).buffer
    return .texts buffer.text buffer.handleText
  | .reset => do
    modify fun tenants => { buffer := tenants.buffer.reset }
    return .done

/-- The outcomes of commands one after another, each with what it left. -/
def run : List Command → Tenants → List (Except Fault Reply × Tenants)
  | [], _ => []
  | command :: rest, tenants =>
    match command.perform tenants with
    | .ok reply after => (.ok reply, after) :: run rest after
    | .error fault after => (.error fault, after) :: run rest after

end Tenants

end Containers
