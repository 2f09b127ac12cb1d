import Mathlib.Data.Finset.Insert
import CppPlayground.Lib.ReleaseAcquire
import CppPlayground.LFSPSCQueue.Model

/-! # `LFSPSCQueue` with its memory orders

    The functions of `Model` once more, now with the `std::memory_order` of every load and
    store: a load of an index may return an old value, and an access of a slot that is not
    ordered after all earlier ones is a data race, which is undefined behaviour like the
    others.  The index that a thread stores to is named after the thread. -/

namespace LFSPSCQueue.Weak

open Storage Transition Channel ReleaseAcquire

variable {T : Type}

/-- The two threads. -/
inductive Side where
  | producer
  | consumer
  deriving DecidableEq, Repr

instance : Fintype Side := ⟨{.producer, .consumer}, fun d => by cases d <;> decide⟩

def Side.other : Side → Side
  | .producer => .consumer
  | .consumer => .producer

/-- `m_write_index`, which the producer stores to. -/
abbrev mWriteIndex : Side := .producer

/-- `m_read_index`, which the consumer stores to. -/
abbrev mReadIndex : Side := .consumer

/-- The indices and what is known of the slots. -/
abbrev Indices : Type := Memory Side Side Nat Nat

/-- The ring, the two indices and the two threads. -/
structure WeakQueue (T : Type) where
  mRingBuffer : Slots T
  indices : Indices
  producer : Producer T
  consumer : Consumer T

/-- What a step does to the memory, and what an observer of the queue sees. -/
abbrev WeakEvent (T : Type) : Type := Option (Side × Action Side Nat) × Event T

/-- A queue that has just been constructed. -/
def WeakQueue.construct : WeakQueue T := ⟨fun _ => none, .initial fun _ => 0, .idle, .idle⟩

/-- The next step of the producer; an idle one calls `try_push(value)`.  A load returns
    message `k`. -/
def producerStep (size : Nat) (value : T) (k : Nat) (q : WeakQueue T) :
    Option (WeakEvent T × WeakQueue T) :=
  match q.producer with
  | .idle =>
      -- `m_write_index.load(std::memory_order_relaxed)`
      (q.indices.load .producer mWriteIndex k false).map fun (write, m) =>
        ((some (.producer, .load mWriteIndex k false), .internal),
          { q with indices := m, producer := .loadedWrite value write })
  | .loadedWrite v write =>
      if size = 0 then some ((none, .internal), { q with producer := .crashed })
      else
        -- `m_read_index.load(std::memory_order::acquire)`
        (q.indices.load .producer mReadIndex k true).map fun (read, m) =>
          if nextIndex size write = read then
            ((some (.producer, .load mReadIndex k true), .refused v),
              { q with indices := m, producer := .idle })
          else
            ((some (.producer, .load mReadIndex k true), .internal),
              { q with indices := m, producer := .constructing v write (nextIndex size write) })
  | .constructing v write next =>
      if write < size ∧ (q.mRingBuffer write).isNone ∧ q.indices.Ordered .producer write then
        some ((some (.producer, .access write), .internal),
          { q with
            mRingBuffer := Function.update q.mRingBuffer write (some v)
            indices := q.indices.access .producer write
            producer := .storing v next })
      else some ((none, .internal), { q with producer := .crashed })
  | .storing v next =>
      -- `m_write_index.store(next, std::memory_order::release)`
      some ((some (.producer, .store mWriteIndex (q.indices.messages mWriteIndex).length true),
          .pushed v),
        { q with
          indices := q.indices.store .producer mWriteIndex next true
          producer := .idle })
  | .crashed => some ((none, .internal), q)

/-- The next step of the consumer; an idle one calls `try_pop()`. -/
def consumerStep (size : Nat) (moved : T → T) (k : Nat) (q : WeakQueue T) :
    Option (WeakEvent T × WeakQueue T) :=
  match q.consumer with
  | .idle =>
      -- `m_read_index.load(std::memory_order_relaxed)`
      (q.indices.load .consumer mReadIndex k false).map fun (read, m) =>
        ((some (.consumer, .load mReadIndex k false), .internal),
          { q with indices := m, consumer := .loadedRead read })
  | .loadedRead read =>
      -- `m_write_index.load(std::memory_order_acquire)`
      (q.indices.load .consumer mWriteIndex k true).map fun (write, m) =>
        if read = write then
          ((some (.consumer, .load mWriteIndex k true), .foundEmpty),
            { q with indices := m, consumer := .idle })
        else
          ((some (.consumer, .load mWriteIndex k true), .internal),
            { q with indices := m, consumer := .reading read })
  | .reading read =>
      match q.mRingBuffer read with
      | some v =>
          if q.indices.Ordered .consumer read then
            some ((some (.consumer, .access read), .internal),
              { q with
                mRingBuffer := Function.update q.mRingBuffer read (some (moved v))
                indices := q.indices.access .consumer read
                consumer := .destroying read v })
          else some ((none, .internal), { q with consumer := .crashed })
      | none => some ((none, .internal), { q with consumer := .crashed })
  | .destroying read result =>
      if (q.mRingBuffer read).isSome ∧ q.indices.Ordered .consumer read then
        some ((some (.consumer, .access read), .internal),
          { q with
            mRingBuffer := Function.update q.mRingBuffer read none
            indices := q.indices.access .consumer read
            consumer := .storing read result })
      else some ((none, .internal), { q with consumer := .crashed })
  | .storing read result =>
      if size = 0 then some ((none, .internal), { q with consumer := .crashed })
      else
        -- `m_read_index.store(next, std::memory_order_release)`
        some ((some (.consumer, .store mReadIndex (q.indices.messages mReadIndex).length true),
            .popped result),
          { q with
            indices := q.indices.store .consumer mReadIndex (nextIndex size read) true
            consumer := .idle })
  | .crashed => some ((none, .internal), q)

/-- All interleavings of any calls of `try_push` by one producer and of `try_pop` by one
    consumer, with all values that their loads may return. -/
def weakQueues (capacity : Nat) (moved : T → T) : System (WeakQueue T) (WeakEvent T) where
  init q := q = WeakQueue.construct
  step q a q' := ∃ k, (∃ value, producerStep (ringSize capacity) value k q = some (a, q'))
    ∨ consumerStep (ringSize capacity) moved k q = some (a, q')

/-- What is done to the memory in a run. -/
def accesses (tr : List (WeakEvent T)) : List (Side × Action Side Nat) := observed Prod.fst tr

/-- What an observer of the queue sees of a run. -/
def events (tr : List (WeakEvent T)) : List (Event T) := tr.map Prod.snd

end LFSPSCQueue.Weak
