import Temnion.Core
import Temnion.Library.Dense

/-
This file models the dense slab whose handles carry the generation of their slot.
-/

namespace Temnion.State

open Dense

/-- No dense index has this value, which stands for a slot without a value. -/
def vacant : UInt32 := 0xFFFFFFFF

structure Slot where
  denseIndex : UInt32
  generation : UInt32
  deriving DecidableEq, Repr

/-- The last error stands for an index outside its vector, where the program would stop. -/
inductive StateError where
  | invalidCapacity
  | capacityExceeded
  | invalidEntity (id : EntityId)
  | outOfBounds
  deriving DecidableEq, Repr

/-- Vectors grow and shrink at their ends, and the reservations of their memory are left out. -/
structure StateSlab (T : Type) where
  shard : ShardId
  capacity : Nat
  slots : List Slot
  values : List T
  denseSlots : List UInt32
  freeSlots : List UInt32

namespace StateSlab

variable {T : Type}

def new (shard : ShardId) (capacity : Nat) : Except StateError (StateSlab T) :=
  if 0xFFFFFFFF < capacity then .error .invalidCapacity
  else .ok { shard, capacity, slots := [], values := [], denseSlots := [], freeSlots := [] }

/-- The slot of the next handle: the last free one, or a new one while there is room. -/
def takeSlot (slab : StateSlab T) : Except StateError (UInt32 × StateSlab T) :=
  match slab.freeSlots.getLast? with
  | some index => .ok (index, { slab with freeSlots := slab.freeSlots.dropLast })
  | none =>
      if slab.slots.length = slab.capacity then .error .capacityExceeded
      else .ok (UInt32.ofNat slab.slots.length, { slab with slots := slab.slots ++ [⟨vacant, 0⟩] })

/-- The value goes to the end of the dense vectors. -/
def occupy (slab : StateSlab T) (index : UInt32) (slot : Slot) (value : T) : StateSlab T where
  shard := slab.shard
  capacity := slab.capacity
  slots := slab.slots.set index.toNat { slot with denseIndex := UInt32.ofNat slab.values.length }
  values := slab.values ++ [value]
  denseSlots := slab.denseSlots ++ [index]
  freeSlots := slab.freeSlots

def insert (slab : StateSlab T) (value : T) : Except StateError EntityId × StateSlab T :=
  match slab.takeSlot with
  | .error error => (.error error, slab)
  | .ok (index, taken) =>
      match taken.slots[index.toNat]? with
      | none => (.error .outOfBounds, slab)
      | some slot => (.ok ⟨slab.shard, index, slot.generation⟩, taken.occupy index slot value)

def denseIndex (slab : StateSlab T) (id : EntityId) : Except StateError Nat :=
  match slab.slots[id.slot.toNat]? with
  | some slot =>
      if id.shard = slab.shard ∧ id.generation = slot.generation ∧ slot.denseIndex ≠ vacant then
        .ok slot.denseIndex.toNat
      else .error (.invalidEntity id)
  | none => .error (.invalidEntity id)

def valueAt (slab : StateSlab T) (index : Nat) : Except StateError T :=
  match slab.values[index]? with
  | some value => .ok value
  | none => .error .outOfBounds

def get (slab : StateSlab T) (id : EntityId) : Except StateError T := do
  let index ← slab.denseIndex id
  slab.valueAt index

/-- The caller changes the value behind the reference that it gets. -/
def getMut (slab : StateSlab T) (id : EntityId) (change : T → T) : Except StateError T × StateSlab T :=
  match slab.denseIndex id with
  | .error error => (.error error, slab)
  | .ok index => (slab.valueAt index, { slab with values := slab.values.modify index change })

/-- The slot loses its value. A slot whose generations are exhausted is never free again. -/
def vacate (slab : StateSlab T) (index : UInt32) : StateSlab T :=
  match slab.slots[index.toNat]? with
  | none => slab
  | some slot =>
      if slot.generation = 0xFFFFFFFF then
        { slab with slots := slab.slots.set index.toNat ⟨vacant, slot.generation⟩ }
      else
        { slab with
          slots := slab.slots.set index.toNat ⟨vacant, slot.generation + 1⟩
          freeSlots := slab.freeSlots ++ [index] }

/-- The last value moves into the hole, and its slot learns the new place. -/
def closeHole (slab : StateSlab T) (index : Nat) : StateSlab T :=
  let denseSlots := swapRemove slab.denseSlots index
  { slab with
    values := swapRemove slab.values index
    denseSlots
    slots := match denseSlots[index]? with
      | some moved => slab.slots.modify moved.toNat fun slot => { slot with denseIndex := UInt32.ofNat index }
      | none => slab.slots }

def remove (slab : StateSlab T) (id : EntityId) : Except StateError T × StateSlab T :=
  match slab.denseIndex id with
  | .error error => (.error error, slab)
  | .ok index =>
      match slab.values[index]? with
      | none => (.error .outOfBounds, slab)
      | some value => (.ok value, (slab.closeHole index).vacate id.slot)

def iter (slab : StateSlab T) : List (EntityId × T) :=
  (slab.denseSlots.zip slab.values).filterMap fun (index, value) =>
    slab.slots[index.toNat]?.map fun slot => (⟨slab.shard, index, slot.generation⟩, value)

end StateSlab

end Temnion.State
