import Mathlib.Algebra.Group.Nat.Defs
import CppPlayground.Lib.Channel
import CppPlayground.Lib.Storage

/-! # `LFSPSCQueue`: one producer and one consumer, step by step

    `concurrency/lf_spsc_queue.hpp`.  Each thread is the point of its function it has
    reached, with its local variables; a step of a thread ends with one access to shared
    memory: a load or store of an index, or the construction, the read or the destruction
    of the element in a slot.  Undefined behaviour leaves the thread `crashed`: a division
    by a ring size of `0`, a slot outside the ring, construction over an element, access
    to a slot without one. -/

namespace LFSPSCQueue

open Storage Transition Channel

variable {T : Type}

/-- Where the producer is in `try_push`. -/
inductive Producer (T : Type) where
  | idle
  | loadedWrite (value : T) (write : Nat)
  | constructing (value : T) (write next : Nat)
  | storing (value : T) (next : Nat)
  | crashed

/-- Where the consumer is in `try_pop`. -/
inductive Consumer (T : Type) where
  | idle
  | loadedRead (read : Nat)
  | reading (read : Nat)
  | destroying (read : Nat) (result : T)
  | storing (read : Nat) (result : T)
  | crashed

/-- The ring, the two indices and the two threads. -/
structure Queue (T : Type) where
  mRingBuffer : Slots T
  mReadIndex : Nat
  mWriteIndex : Nat
  producer : Producer T
  consumer : Consumer T

/-- `m_ring_buffer.size()`: the constructor asks for `capacity + 1` slots. -/
def ringSize (capacity : Nat) : Nat := (capacity + 1) % 2 ^ 64

/-- `(index + 1) % m_ring_buffer.size()` -/
def nextIndex (size index : Nat) : Nat := (index + 1) % 2 ^ 64 % size

/-- A queue that has just been constructed. -/
def Queue.construct : Queue T := ⟨fun _ => none, 0, 0, .idle, .idle⟩

/-- The next step of the producer; an idle one calls `try_push(value)`. -/
def producerStep (size : Nat) (value : T) (q : Queue T) : Event T × Queue T :=
  match q.producer with
  | .idle =>
      (.internal, { q with producer := .loadedWrite value q.mWriteIndex })
  | .loadedWrite v write =>
      if size = 0 then (.internal, { q with producer := .crashed })
      else if nextIndex size write = q.mReadIndex then
        (.refused v, { q with producer := .idle })
      else
        (.internal, { q with producer := .constructing v write (nextIndex size write) })
  | .constructing v write next =>
      if write < size ∧ (q.mRingBuffer write).isNone then
        (.internal, { q with
          mRingBuffer := Function.update q.mRingBuffer write (some v)
          producer := .storing v next })
      else (.internal, { q with producer := .crashed })
  | .storing v next =>
      (.pushed v, { q with mWriteIndex := next, producer := .idle })
  | .crashed => (.internal, q)

/-- The next step of the consumer; an idle one calls `try_pop()`. -/
def consumerStep (size : Nat) (moved : T → T) (q : Queue T) : Event T × Queue T :=
  match q.consumer with
  | .idle => (.internal, { q with consumer := .loadedRead q.mReadIndex })
  | .loadedRead read =>
      if read = q.mWriteIndex then (.foundEmpty, { q with consumer := .idle })
      else (.internal, { q with consumer := .reading read })
  | .reading read =>
      match q.mRingBuffer read with
      | some v =>
          (.internal, { q with
            mRingBuffer := Function.update q.mRingBuffer read (some (moved v))
            consumer := .destroying read v })
      | none => (.internal, { q with consumer := .crashed })
  | .destroying read result =>
      if (q.mRingBuffer read).isSome then
        (.internal, { q with
          mRingBuffer := Function.update q.mRingBuffer read none
          consumer := .storing read result })
      else (.internal, { q with consumer := .crashed })
  | .storing read result =>
      if size = 0 then (.internal, { q with consumer := .crashed })
      else
        (.popped result, { q with mReadIndex := nextIndex size read, consumer := .idle })
  | .crashed => (.internal, q)

/-- All interleavings of any calls of `try_push` by one producer and of `try_pop` by one
    consumer; `moved` is what a move leaves in the slot. -/
def queues (capacity : Nat) (moved : T → T) : System (Queue T) (Event T) where
  init q := q = Queue.construct
  step q a q' := (∃ value, producerStep (ringSize capacity) value q = (a, q'))
    ∨ consumerStep (ringSize capacity) moved q = (a, q')

/-! ## The end of the queue -/

/-- `~Slot() {}`: the values it destroys, and what it leaves constructed. -/
def slotDestruct (value : Option T) : List T × Option T := ([], value)

/-- `~LFSPSCQueue()`, which is implicit and destroys the slots of `m_ring_buffer`. -/
def Queue.destruct (size : Nat) (q : Queue T) : List T × Slots T :=
  ((List.range size).flatMap fun p => (slotDestruct (q.mRingBuffer p)).1,
    fun p => (slotDestruct (q.mRingBuffer p)).2)

/-- What the call `try_push(std::move(object))` leaves in an object that held `v`: the
    parameter is taken by value, so it is constructed by a move before anything is
    checked. -/
def callersObject (moved : T → T) (v : T) : T := moved v

end LFSPSCQueue
