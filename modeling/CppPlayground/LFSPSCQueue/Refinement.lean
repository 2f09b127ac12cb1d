import CppPlayground.Lib.Ring
import CppPlayground.LFSPSCQueue.Model

/-! # `LFSPSCQueue` is a bounded channel under every interleaving

    Between the check of one thread and its publishing store the other may take any
    number of steps.  `Inv` relates the indices, the program points with their saved
    values and the live slots to the values on the way: `n` is how many have been
    popped and `xs` those published but not yet released.  A push takes effect at the
    store of `m_write_index`, a pop at the store of `m_read_index`, a refusal at the load
    of the other index. -/

namespace LFSPSCQueue

open Storage Transition Channel

variable {T : Type} {capacity n : Nat} {moved : T → T} {q : Queue T} {xs : List T}

/-! ## Index arithmetic -/

theorem ringSize_eq (hcap : capacity + 1 < 2 ^ 64) : ringSize capacity = capacity + 1 :=
  Nat.mod_eq_of_lt hcap

theorem nextIndex_mod (hcap : capacity + 1 < 2 ^ 64) (i : Nat) :
    nextIndex (capacity + 1) (i % (capacity + 1)) = (i + 1) % (capacity + 1) := by
  have hlt : i % (capacity + 1) < capacity + 1 := Nat.mod_lt _ (Nat.succ_pos _)
  rw [nextIndex, Nat.mod_eq_of_lt (a := i % (capacity + 1) + 1) (by omega), Nat.mod_add_mod]

/-- The next write index is the read index exactly at a full ring. -/
theorem next_eq_read_iff (hfit : xs.length ≤ capacity) :
    (n + xs.length + 1) % (capacity + 1) = n % (capacity + 1) ↔ xs.length = capacity := by
  constructor
  · intro heq
    by_contra hne
    have := eq_of_mod_eq (h := n) (i := xs.length + 1) (j := 0) (by omega) (by omega) heq
    omega
  · intro heq
    rw [heq, Nat.add_assoc, Nat.add_mod_right]

/-- The indices agree exactly at an empty ring. -/
theorem read_eq_write_iff (hfit : xs.length ≤ capacity) :
    n % (capacity + 1) = (n + xs.length) % (capacity + 1) ↔ xs = [] := by
  constructor
  · intro heq
    have := eq_of_mod_eq (h := n) (i := 0) (j := xs.length) (by omega) (by omega) heq
    exact List.length_eq_zero_iff.mp this.symm
  · rintro rfl
    rfl

/-! ## The invariant -/

/-- What the producer has learnt still holds. -/
def ProducerAt (capacity : Nat) (q : Queue T) (xs : List T) : Prop :=
  match q.producer with
  | .idle => True
  | .loadedWrite _ write => write = q.mWriteIndex
  | .constructing _ write next => write = q.mWriteIndex
      ∧ next = nextIndex (capacity + 1) q.mWriteIndex ∧ xs.length < capacity
  | .storing _ next => next = nextIndex (capacity + 1) q.mWriteIndex ∧ xs.length < capacity
  | .crashed => False

/-- What the consumer has learnt still holds. -/
def ConsumerAt (q : Queue T) (xs : List T) : Prop :=
  match q.consumer with
  | .idle => True
  | .loadedRead read => read = q.mReadIndex
  | .reading read => read = q.mReadIndex ∧ xs ≠ []
  | .destroying read result => read = q.mReadIndex ∧ xs.head? = some result
  | .storing read result => read = q.mReadIndex ∧ xs.head? = some result
  | .crashed => False

/-- The position of the first live slot. -/
def start (n : Nat) : Consumer T → Nat
  | .storing _ _ => n + 1
  | _ => n

/-- What is left of the published values in the ring. -/
def published (moved : T → T) (xs : List T) : Consumer T → List T
  | .destroying _ result => moved result :: xs.tail
  | .storing _ _ => xs.tail
  | _ => xs

/-- The value constructed behind them. -/
def constructed : Producer T → List T
  | .storing v _ => [v]
  | _ => []

structure Inv (capacity : Nat) (moved : T → T) (q : Queue T) (n : Nat) (xs : List T) :
    Prop where
  fits : xs.length ≤ capacity
  read : q.mReadIndex = n % (capacity + 1)
  write : q.mWriteIndex = (n + xs.length) % (capacity + 1)
  producer : ProducerAt capacity q xs
  consumer : ConsumerAt q xs
  ring : HoldsRing (capacity + 1) (start n q.consumer) q.mRingBuffer
    (published moved xs q.consumer ++ constructed q.producer)

theorem cons_of_head? {x : T} (h : xs.head? = some x) : ∃ rest, xs = x :: rest := by
  cases xs with
  | nil => exact nomatch h
  | cons y rest => exact ⟨rest, by rw [Option.some.inj h]⟩

/-- The published values end at the write index, whatever the consumer is doing. -/
theorem ConsumerAt.start_add (h : ConsumerAt q xs) :
    start n q.consumer + (published moved xs q.consumer).length = n + xs.length := by
  rw [ConsumerAt] at h
  cases hc : q.consumer with
  | destroying read result =>
      rw [hc] at h
      obtain ⟨rest, rfl⟩ := cons_of_head? h.2
      rfl
  | storing read result =>
      rw [hc] at h
      obtain ⟨rest, rfl⟩ := cons_of_head? h.2
      show n + 1 + rest.length = n + (rest.length + 1)
      omega
  | _ => rfl

theorem ConsumerAt.length_le (moved : T → T) (h : ConsumerAt q xs) :
    (published moved xs q.consumer).length ≤ xs.length := by
  rw [ConsumerAt] at h
  cases hc : q.consumer with
  | destroying read result =>
      rw [hc] at h
      obtain ⟨rest, rfl⟩ := cons_of_head? h.2
      exact Nat.le_refl _
  | storing read result =>
      rw [hc] at h
      obtain ⟨rest, rfl⟩ := cons_of_head? h.2
      exact Nat.le_succ _
  | _ => exact Nat.le_refl _

/-- The consumer does not notice a value published behind its own. -/
theorem ConsumerAt.concat (h : ConsumerAt q xs) (v : T) : ConsumerAt q (xs ++ [v]) := by
  rw [ConsumerAt] at h ⊢
  cases hc : q.consumer with
  | reading read =>
      rw [hc] at h
      exact ⟨h.1, by simp⟩
  | destroying read result =>
      rw [hc] at h
      obtain ⟨rest, rfl⟩ := cons_of_head? h.2
      exact ⟨h.1, rfl⟩
  | storing read result =>
      rw [hc] at h
      obtain ⟨rest, rfl⟩ := cons_of_head? h.2
      exact ⟨h.1, rfl⟩
  | idle => trivial
  | loadedRead read => rw [hc] at h; exact h
  | crashed => rw [hc] at h; exact h

theorem ConsumerAt.published_concat (h : ConsumerAt q xs) (v : T) :
    published moved (xs ++ [v]) q.consumer = published moved xs q.consumer ++ [v] := by
  rw [ConsumerAt] at h
  cases hc : q.consumer with
  | destroying read result =>
      rw [hc] at h
      obtain ⟨rest, rfl⟩ := cons_of_head? h.2
      rfl
  | storing read result =>
      rw [hc] at h
      obtain ⟨rest, rfl⟩ := cons_of_head? h.2
      rfl
  | _ => rfl

/-- The producer does not mind a value released in front. -/
theorem ProducerAt.tail {x : T} {rest : List T} {q' : Queue T}
    (h : ProducerAt capacity q (x :: rest)) (hprod : q'.producer = q.producer)
    (hwrite : q'.mWriteIndex = q.mWriteIndex) : ProducerAt capacity q' rest := by
  rw [ProducerAt] at h ⊢
  rw [hprod, hwrite]
  cases hp : q.producer with
  | constructing v write next =>
      rw [hp] at h
      exact ⟨h.1, h.2.1, Nat.lt_of_succ_lt h.2.2⟩
  | storing v next =>
      rw [hp] at h
      exact ⟨h.1, Nat.lt_of_succ_lt h.2⟩
  | idle => trivial
  | loadedWrite v write => rw [hp] at h; exact h
  | crashed => rw [hp] at h; exact h

theorem inv_construct (capacity : Nat) (moved : T → T) :
    Inv capacity moved Queue.construct 0 [] where
  fits := Nat.zero_le _
  read := (Nat.zero_mod _).symm
  write := (Nat.zero_mod _).symm
  producer := trivial
  consumer := trivial
  ring := holdsRing_empty _ _

/-! ## One step -/

/-- While the producer is between two constructions, only its program point changes. -/
theorem Inv.setProducer (h : Inv capacity moved q n xs) {p : Producer T}
    (hold : constructed q.producer = []) (hnew : constructed p = [])
    (hp : ProducerAt capacity { q with producer := p } xs) :
    Inv capacity moved { q with producer := p } n xs where
  fits := h.fits
  read := h.read
  write := h.write
  producer := hp
  consumer := h.consumer
  ring := by
    have hring := h.ring
    rw [hold] at hring
    show HoldsRing _ _ _ (_ ++ constructed p)
    rw [hnew]
    exact hring

/-- While the producer has constructed nothing and there is room, the slot at the write
    index is empty, and constructing there is constructing behind the published values. -/
theorem Inv.behind (h : Inv capacity moved q n xs) (hnone : constructed q.producer = [])
    (hroom : xs.length < capacity) :
    q.mWriteIndex < capacity + 1 ∧ q.mRingBuffer q.mWriteIndex = none
      ∧ ∀ v, HoldsRing (capacity + 1) (start n q.consumer)
        (Function.update q.mRingBuffer q.mWriteIndex (some v))
        (published moved xs q.consumer ++ [v]) := by
  have hring := h.ring
  rw [hnone, List.append_nil] at hring
  have hplace : (start n q.consumer + (published moved xs q.consumer).length)
      % (capacity + 1) = q.mWriteIndex := by
    rw [h.consumer.start_add, h.write]
  have hlen := h.consumer.length_le moved
  have hlt : (published moved xs q.consumer).length < capacity + 1 := by omega
  rw [← hplace]
  exact ⟨Nat.mod_lt _ (Nat.succ_pos _), hring.behind hlt, hring.push hlt⟩

/-- **A step of the producer.** -/
theorem producer_step (hcap : capacity + 1 < 2 ^ 64) (h : Inv capacity moved q n xs)
    (value : T) :
    ∃ xs', (channel T capacity).step xs (producerStep (ringSize capacity) value q).1 xs'
      ∧ Inv capacity moved (producerStep (ringSize capacity) value q).2 n xs' := by
  have hprod := h.producer
  have hring := h.ring
  have hnext : nextIndex (capacity + 1) q.mWriteIndex = (n + xs.length + 1) % (capacity + 1) := by
    rw [h.write, nextIndex_mod hcap]
  rw [ringSize_eq hcap]
  rw [ProducerAt] at hprod
  cases hp : q.producer with
  | idle =>
      simp only [producerStep, hp]
      exact ⟨xs, rfl, h.setProducer (by rw [hp]; rfl) rfl rfl⟩
  | loadedWrite v write =>
      rw [hp] at hprod
      obtain rfl : write = q.mWriteIndex := hprod
      simp only [producerStep, hp, if_neg (Nat.succ_ne_zero capacity)]
      -- the value read may be stale by the next step, but the consumer only makes room
      by_cases hfull : nextIndex (capacity + 1) q.mWriteIndex = q.mReadIndex
      · rw [if_pos hfull]
        rw [hnext, h.read, next_eq_read_iff h.fits] at hfull
        exact ⟨xs, ⟨hfull, rfl⟩, h.setProducer (by rw [hp]; rfl) rfl trivial⟩
      · rw [if_neg hfull]
        rw [hnext, h.read, next_eq_read_iff h.fits] at hfull
        have hroom : xs.length < capacity := Nat.lt_of_le_of_ne h.fits hfull
        exact ⟨xs, rfl, h.setProducer (by rw [hp]; rfl) rfl ⟨rfl, rfl, hroom⟩⟩
  | constructing v write next =>
      rw [hp] at hprod
      obtain ⟨rfl, rfl, hroom⟩ := hprod
      obtain ⟨hwrite, hfree, hpush⟩ := h.behind (by rw [hp]; rfl) hroom
      simp only [producerStep, hp, if_pos (And.intro hwrite (Option.isNone_iff_eq_none.mpr hfree))]
      exact ⟨xs, rfl, h.fits, h.read, h.write, ⟨rfl, hroom⟩, h.consumer, hpush v⟩
  | storing v next =>
      rw [hp] at hprod
      obtain ⟨rfl, hroom⟩ := hprod
      rw [hp] at hring
      simp only [producerStep, hp]
      refine ⟨xs ++ [v], ⟨hroom, rfl⟩, ?_, h.read, ?_, trivial, h.consumer.concat v, ?_⟩
      · -- the value counts as published from this store on
        rw [List.length_append, List.length_singleton]
        omega
      · rw [List.length_append, List.length_singleton, ← Nat.add_assoc]
        exact hnext
      · show HoldsRing _ _ _ (published moved (xs ++ [v]) q.consumer ++ [])
        rw [List.append_nil, h.consumer.published_concat]
        exact hring
  | crashed =>
      rw [hp] at hprod
      exact hprod.elim

/-- While the consumer has not touched a slot, only its program point changes. -/
theorem Inv.setConsumer (h : Inv capacity moved q n xs) {c : Consumer T}
    (hstart : start n c = start n q.consumer)
    (hpub : published moved xs c = published moved xs q.consumer)
    (hc : ConsumerAt { q with consumer := c } xs) :
    Inv capacity moved { q with consumer := c } n xs where
  fits := h.fits
  read := h.read
  write := h.write
  producer := h.producer
  consumer := hc
  ring := by
    show HoldsRing _ (start n c) _ (published moved xs c ++ _)
    rw [hstart, hpub]
    exact h.ring

/-- **A step of the consumer.** -/
theorem consumer_step (hcap : capacity + 1 < 2 ^ 64) (h : Inv capacity moved q n xs) :
    ∃ n' xs', (channel T capacity).step xs (consumerStep (ringSize capacity) moved q).1 xs'
      ∧ Inv capacity moved (consumerStep (ringSize capacity) moved q).2 n' xs' := by
  have hcons := h.consumer
  have hring := h.ring
  rw [ringSize_eq hcap]
  rw [ConsumerAt] at hcons
  cases hc : q.consumer with
  | idle =>
      simp only [consumerStep, hc]
      exact ⟨n, xs, rfl, h.setConsumer (by rw [hc]; rfl) (by rw [hc]; rfl) rfl⟩
  | loadedRead read =>
      rw [hc] at hcons
      obtain rfl : read = q.mReadIndex := hcons
      simp only [consumerStep, hc]
      -- likewise: what is there to read stays there until the consumer takes it
      by_cases hempty : q.mReadIndex = q.mWriteIndex
      · rw [if_pos hempty]
        rw [h.read, h.write, read_eq_write_iff h.fits] at hempty
        exact ⟨n, xs, ⟨hempty, rfl⟩,
          h.setConsumer (by rw [hc]; rfl) (by rw [hc]; rfl) trivial⟩
      · rw [if_neg hempty]
        rw [h.read, h.write, read_eq_write_iff h.fits] at hempty
        exact ⟨n, xs, rfl, h.setConsumer (by rw [hc]; rfl) (by rw [hc]; rfl) ⟨rfl, hempty⟩⟩
  | reading read =>
      rw [hc] at hcons hring
      obtain ⟨rfl, hne⟩ := hcons
      obtain ⟨x, rest, rfl⟩ := List.exists_cons_of_ne_nil hne
      have hfront : q.mRingBuffer q.mReadIndex = some x := by
        rw [h.read]
        exact hring.front
      have hset := hring.setFront (moved x)
      rw [show start n (Consumer.reading q.mReadIndex : Consumer T) = n from rfl,
        ← h.read] at hset
      simp only [consumerStep, hc, hfront]
      exact ⟨n, x :: rest, rfl, h.fits, h.read, h.write, h.producer, ⟨rfl, rfl⟩, hset⟩
  | destroying read result =>
      rw [hc] at hcons hring
      obtain ⟨rfl, hhead⟩ := hcons
      obtain ⟨rest, rfl⟩ := cons_of_head? hhead
      have hring' : HoldsRing (capacity + 1) n q.mRingBuffer
          (moved result :: (rest ++ constructed q.producer)) := hring
      have hfront := hring'.front
      have hpop := hring'.pop
      rw [← h.read] at hfront hpop
      have hsome : (q.mRingBuffer q.mReadIndex).isSome = true := by rw [hfront]; rfl
      simp only [consumerStep, hc, if_pos hsome]
      exact ⟨n, result :: rest, rfl, h.fits, h.read, h.write, h.producer, ⟨rfl, rfl⟩, hpop⟩
  | storing read result =>
      rw [hc] at hcons hring
      obtain ⟨rfl, hhead⟩ := hcons
      obtain ⟨rest, rfl⟩ := cons_of_head? hhead
      simp only [consumerStep, hc, if_neg (Nat.succ_ne_zero capacity)]
      -- the slot was emptied before; only now may the producer use it
      refine ⟨n + 1, rest, rfl, Nat.le_of_succ_le h.fits, ?_, ?_, ?_, trivial, hring⟩
      · show nextIndex (capacity + 1) q.mReadIndex = _
        rw [h.read, nextIndex_mod hcap]
      · rw [Nat.add_assoc, Nat.add_comm 1]
        exact h.write
      · exact h.producer.tail rfl rfl
  | crashed =>
      rw [hc] at hcons
      exact hcons.elim

/-! ## Whole runs -/

/-- The queue simulates the bounded channel. -/
theorem refines (hcap : capacity + 1 < 2 ^ 64) (moved : T → T) :
    Simulation (queues capacity moved) (channel T capacity)
      (fun q xs => ∃ n, Inv capacity moved q n xs) where
  init q hq := ⟨[], rfl, 0, hq ▸ inv_construct capacity moved⟩
  step q xs a q' := by
    rintro ⟨n, h⟩ (⟨value, hstep⟩ | hstep)
    · obtain ⟨xs', ha, hinv⟩ := producer_step hcap h value
      rw [hstep] at ha hinv
      exact ⟨xs', ha, n, hinv⟩
    · obtain ⟨n', xs', ha, hinv⟩ := consumer_step hcap h
      rw [hstep] at ha hinv
      exact ⟨xs', ha, n', hinv⟩

/-- The live slots of the ring. -/
def liveSlots (size : Nat) (q : Queue T) : Finset Nat :=
  (Finset.range size).filter fun p => (q.mRingBuffer p).isSome

/-- The slots the threads are about to access: the producer constructs in an empty one,
    the consumer reads and destroys in a live one. -/
structure SafeAccess (size : Nat) (q : Queue T) : Prop where
  construct : ∀ v write next, q.producer = .constructing v write next →
    write < size ∧ q.mRingBuffer write = none
  read : ∀ read, q.consumer = .reading read → (q.mRingBuffer read).isSome
  destroy : ∀ read result, q.consumer = .destroying read result → (q.mRingBuffer read).isSome
  producer : q.producer ≠ .crashed
  consumer : q.consumer ≠ .crashed

theorem Inv.safeAccess (h : Inv capacity moved q n xs) : SafeAccess (capacity + 1) q where
  construct v write next hp := by
    have hprod := h.producer
    rw [ProducerAt, hp] at hprod
    obtain ⟨rfl, -, hroom⟩ := hprod
    obtain ⟨hlt, hfree, -⟩ := h.behind (by rw [hp]; rfl) hroom
    exact ⟨hlt, hfree⟩
  read read hc := by
    have hcons := h.consumer
    have hring := h.ring
    rw [ConsumerAt, hc] at hcons
    rw [hc] at hring
    obtain ⟨rfl, hne⟩ := hcons
    obtain ⟨x, rest, rfl⟩ := List.exists_cons_of_ne_nil hne
    rw [h.read, show q.mRingBuffer (n % (capacity + 1)) = some x from hring.front]
    rfl
  destroy read result hc := by
    have hcons := h.consumer
    have hring := h.ring
    rw [ConsumerAt, hc] at hcons
    rw [hc] at hring
    obtain ⟨rfl, -⟩ := hcons
    rw [h.read, show q.mRingBuffer (n % (capacity + 1)) = some (moved result) from hring.front]
    rfl
  producer hp := by
    have hprod := h.producer
    rw [ProducerAt, hp] at hprod
    exact hprod
  consumer hc := by
    have hcons := h.consumer
    rw [ConsumerAt, hc] at hcons
    exact hcons

/-- At most `capacity` slots are live. -/
theorem Inv.card_liveSlots (h : Inv capacity moved q n xs) :
    (liveSlots (capacity + 1) q).card ≤ capacity := by
  rw [liveSlots, h.ring.card_live, List.length_append]
  have hlen := h.consumer.length_le moved
  have hfits := h.fits
  have hprod := h.producer
  rw [ProducerAt] at hprod
  cases hp : q.producer with
  | storing v next =>
      rw [hp] at hprod
      have hroom := hprod.2
      show _ + 1 ≤ capacity
      omega
  | _ =>
      show _ + 0 ≤ capacity
      omega

/-- **`LFSPSCQueue` is a bounded channel under every interleaving.**  In every run the
    values popped are, in order, a prefix of the values pushed, and at most `capacity` are
    on the way; at most `capacity` slots hold an element; the threads construct in empty
    slots and read and destroy in live ones; and the next step refuses a value only if
    `capacity` values are on the way, and finds the ring empty only if none is. -/
theorem runs_are_channel_runs (hcap : capacity + 1 < 2 ^ 64) {tr : List (Event T)}
    (h : Run (queues capacity moved) tr q) :
    (∃ xs, sent tr = received tr ++ xs ∧ xs.length ≤ capacity)
      ∧ (liveSlots (ringSize capacity) q).card ≤ capacity
      ∧ SafeAccess (ringSize capacity) q
      ∧ (∀ v q', (queues capacity moved).step q (.refused v) q' →
          (sent tr).length = (received tr).length + capacity)
      ∧ (∀ q', (queues capacity moved).step q .foundEmpty q' →
          sent tr = received tr) := by
  obtain ⟨xs, hxs, n, hinv⟩ := (refines hcap moved).run h
  obtain ⟨hsent, hlen⟩ := run_conserves hxs
  rw [ringSize_eq hcap]
  refine ⟨⟨xs, hsent, hlen⟩, hinv.card_liveSlots, hinv.safeAccess, ?_, ?_⟩
  · intro v q' hstep
    obtain ⟨xs', hstep', -⟩ := (refines hcap moved).step q xs _ q' ⟨n, hinv⟩ hstep
    have hfull : xs.length = capacity := hstep'.1
    rw [hsent, List.length_append, hfull]
  · intro q' hstep
    obtain ⟨xs', hstep', -⟩ := (refines hcap moved).step q xs _ q' ⟨n, hinv⟩ hstep
    have hempty : xs = [] := hstep'.1
    rw [hsent, hempty, List.append_nil]

/-- A queue of one: a value is pushed, a second one refused while the first is being
    moved out, and the first is popped. -/
def overtakenPush : List (Event Nat) :=
  [.internal, .internal, .internal, .pushed 5,
    .internal, .internal, .internal, .internal, .refused 6, .internal, .popped 5]

theorem overtakenPush_is_channel_run : ∃ q, Run (queues 1 fun _ => 0) overtakenPush q
    ∧ (liveSlots (ringSize 1) q).card ≤ 1 ∧ SafeAccess (ringSize 1) q := by
  have hstart : Run (queues 1 fun _ => 0) [] (Queue.construct : Queue Nat) := .start rfl
  have hpush := (((hstart.snoc (.inl ⟨5, rfl⟩)).snoc (.inl ⟨5, rfl⟩)).snoc
    (.inl ⟨5, rfl⟩)).snoc (.inl ⟨5, rfl⟩)
  have hmove := (((hpush.snoc (.inr rfl)).snoc (.inr rfl)).snoc (.inr rfl))
  have hrefused := (hmove.snoc (.inl ⟨6, rfl⟩)).snoc (.inl ⟨6, rfl⟩)
  have hpop := (hrefused.snoc (.inr rfl)).snoc (.inr rfl)
  obtain ⟨-, hcard, hsafe, -⟩ := runs_are_channel_runs (by decide) hpop
  exact ⟨_, hpop, hcard, hsafe⟩

end LFSPSCQueue
