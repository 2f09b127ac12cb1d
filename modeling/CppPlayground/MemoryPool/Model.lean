import CppPlayground.Lib.Bytes
import CppPlayground.Lib.Program
import CppPlayground.Lib.System

/-! # `MemoryPool`: the members of the class

    `memory/pool_allocator.hpp`, on byte-addressed memory: `Slot` is a union, so the
    object of a slot and its `next` pointer are the same bytes.  `m_capacity`, `m_slots`
    and the sizes never change and form the `Layout`; `m_next_free` and the memory are
    the state.  A pointer is an address below `2 ^ 64`, stored in eight bytes, and `0` is
    `nullptr`.  Going through a `Slot *` that points to no slot is undefined behaviour.

    A constructor or destructor of `T` is what it does to the bytes of its object: each
    is overwritten with a given value or left alone. -/

namespace MemoryPool

open Program Bytes Transition

/-- What a member can throw; `element` is an exception of a constructor of `T`. -/
inductive Exn where
  | badAlloc
  | element
  deriving DecidableEq, Repr

/-- Where the slots lie: `capacity` of them from the address `base` (`m_slots.get()`)
    on, each large enough for a `T` and for a pointer. -/
structure Layout where
  capacity : Nat
  base : Nat
  sizeT : Nat
  slotSize : Nat
  base_pos : 0 < base
  holds_object : sizeT ≤ slotSize
  holds_next : 8 ≤ slotSize
  in_memory : base + capacity * slotSize < 2 ^ 64

/-- The address of `m_slots[i]`. -/
def Layout.slot (L : Layout) (i : Nat) : Nat := L.base + i * L.slotSize

/-- The addresses of the slots. -/
def Layout.IsSlot (L : Layout) (a : Nat) : Prop := ∃ i, i < L.capacity ∧ a = L.slot i

instance (L : Layout) (a : Nat) : Decidable (L.IsSlot a) :=
  inferInstanceAs (Decidable (∃ i, i < L.capacity ∧ a = L.slot i))

/-- `m_next_free` and the memory. -/
structure Pool where
  mNextFree : Nat
  mem : Memory

/-- The bytes a constructor or destructor writes, by their offset in the object. -/
abbrev Writes : Type := Nat → Option UInt8

/-! ## Slots -/

/-- `slot->next` -/
def loadNext (L : Layout) (slot : Nat) : Prog Pool Exn Nat :=
  access fun p => if L.IsSlot slot then some (loadNat p.mem slot 8) else none

/-- `slot->next = next` -/
def storeNext (L : Layout) (slot next : Nat) : Prog Pool Exn Unit :=
  change fun p =>
    if L.IsSlot slot then some { p with mem := storeNat p.mem slot 8 next } else none

/-- A constructor or destructor of `T` running on the storage of a slot. -/
def writeObject (L : Layout) (slot : Nat) (writes : Writes) : Prog Pool Exn Unit :=
  change fun p =>
    if L.IsSlot slot then some { p with mem := storeBytes p.mem slot L.sizeT writes } else none

def setNextFree (a : Nat) : Prog Pool Exn Unit := modify fun p => { p with mNextFree := a }

/-- `offsetof(Slot, storage)`: a union starts with each of its members. -/
def storageOffset : Nat := 0

/-- `slot_from_object(ptr)` -/
def slotFromObject (ptr : Nat) : Nat := ptr - storageOffset

/-! ## The members -/

/-- `MemoryPool(capacity)`: every slot points to the next one, the last to nothing. -/
def construct (L : Layout) : Prog Pool Exn Unit := do
  setNextFree L.base
  forRange L.capacity fun i =>
    storeNext L (L.slot i) (if i + 1 < L.capacity then L.slot (i + 1) else 0)
  setNextFree (if 0 < L.capacity then L.base else 0)

/-- `allocate(args...)`: the constructor does `writes` and then throws if `fails`.  The
    `next` pointer of the slot is read after the object has been constructed over it. -/
def allocate (L : Layout) (fails : Bool) (writes : Writes) : Prog Pool Exn Nat := do
  let slot ← gets Pool.mNextFree
  if slot = 0 then throwing .badAlloc
  else do
    writeObject L (slot + storageOffset) writes
    attempt (if fails then some .element else none)
    let next ← loadNext L slot
    setNextFree next
    pure (slot + storageOffset)

/-- `deallocate(ptr)`; the destructor does `writes`. -/
def deallocate (L : Layout) (ptr : Nat) (writes : Writes) : Prog Pool Exn Unit := do
  if ptr = 0 then pure ()
  else do
    writeObject L ptr writes
    let nextFree ← gets Pool.mNextFree
    storeNext L (slotFromObject ptr) nextFree
    setNextFree (slotFromObject ptr)

/-! ## Runs -/

/-- A pool and the addresses of its live objects. -/
structure World where
  pool : Pool
  live : List Nat

/-- The operations. -/
inductive Op where
  | allocate (writes : Writes)
  | deallocate (ptr : Nat) (writes : Writes)

/-- `deallocate` gets `nullptr` or a live object of this pool. -/
def Legal (w : World) : Op → Prop
  | .allocate _ => True
  | .deallocate ptr _ => ptr = 0 ∨ ptr ∈ w.live

/-- One call, for a `T` whose constructor does not throw; `allocate` answers with the
    address of the object, `deallocate` with `nullptr`. -/
def exec (L : Layout) (w : World) : Op → Outcome Exn Nat × World
  | .allocate writes =>
      match allocate L false writes w.pool with
      | (.ok ptr, p) => (.ok ptr, ⟨p, ptr :: w.live⟩)
      | (out, p) => (out, ⟨p, w.live⟩)
  | .deallocate ptr writes =>
      let r := (do deallocate L ptr writes; pure 0 : Prog Pool Exn Nat) w.pool
      (r.1, ⟨r.2, w.live.erase ptr⟩)

/-- The runs of a pool; its constructor finds arbitrary memory. -/
def pools (L : Layout) : System World (Op × Outcome Exn Nat) where
  init w := ∃ mem, construct L ⟨0, mem⟩ = (.ok (), w.pool) ∧ w.live = []
  step w a w' := Legal w a.1 ∧ exec L w a.1 = (a.2, w')

end MemoryPool
