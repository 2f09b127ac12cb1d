import CppPlayground.LFSPSCQueue.Refinement

/-! # `LFSPSCQueue`: where the values are in the end

    The elements live in unions, so nothing but the code ends their lives: `try_pop` does,
    `~Slot` does not.  `Conserved` is the account of a queue over its whole life: every
    value that was offered has been popped, is still with the caller who was refused, or
    is destroyed with the queue, and nothing stays constructed in the ring.
    `conserved_iff` says when it holds. -/

namespace LFSPSCQueue

open Storage Transition Channel

variable {T : Type} {capacity n : Nat} {moved : T → T} {q : Queue T} {xs : List T}
  {tr : List (Event T)}

/-- The refused values that their callers still have. -/
def kept [DecidableEq T] (moved : T → T) (tr : List (Event T)) : List T :=
  (refused tr).filter fun v => callersObject moved v = v

/-- The account at the end of the queue. -/
structure Conserved [DecidableEq T] (size : Nat) (moved : T → T) (tr : List (Event T))
    (q : Queue T) : Prop where
  placed : (offered tr).Perm (received tr ++ (kept moved tr ++ (q.destruct size).1))
  ended : ∀ p, (q.destruct size).2 p = none

/-- `~LFSPSCQueue` destroys no value. -/
theorem destruct_fst (size : Nat) (q : Queue T) : (q.destruct size).1 = [] :=
  List.flatMap_eq_nil_iff.mpr fun _ _ => rfl

/-- What is on the way while neither thread is in a call. -/
structure Rests (tr : List (Event T)) (q : Queue T) (xs : List T) : Prop where
  sent : sent tr = received tr ++ xs
  indices : q.mReadIndex = q.mWriteIndex ↔ xs = []
  ring : (∀ p, q.mRingBuffer p = none) ↔ xs = []

theorem Inv.rests (h : Inv capacity moved q n xs) (hsent : sent tr = received tr ++ xs)
    (hp : q.producer = .idle) (hc : q.consumer = .idle) : Rests tr q xs where
  sent := hsent
  indices := by
    rw [h.read, h.write]
    exact read_eq_write_iff h.fits
  ring := by
    have hring := h.ring
    rw [hp, hc] at hring
    have hring' : HoldsRing (capacity + 1) n q.mRingBuffer (xs ++ []) := hring
    rw [List.append_nil] at hring'
    exact hring'.none_iff

/-! ## The largest capacity

    `capacity + 1` wraps to a ring of no slots, in which no call of `try_push` gets past
    its division. -/

/-- The producer has not got past the division. -/
def Producer.blocked : Producer T → Bool
  | .constructing _ _ _ | .storing _ _ => false
  | _ => true

/-- Nothing ever happens to the ring. -/
structure Blocked (tr : List (Event T)) (q : Queue T) : Prop where
  ring : ∀ p, q.mRingBuffer p = none
  indices : q.mReadIndex = q.mWriteIndex
  producer : q.producer.blocked = true
  consumer : q.consumer = .idle ∨ q.consumer = .loadedRead q.mWriteIndex
  sent : sent tr = []
  received : received tr = []

theorem Blocked.internal (h : Blocked tr q) : Channel.sent (tr ++ [.internal]) = []
    ∧ Channel.received (tr ++ [.internal]) = [] := by
  constructor
  · rw [Channel.sent, observed_concat, ← Channel.sent, h.sent]
    rfl
  · rw [Channel.received, observed_concat, ← Channel.received, h.received]
    rfl

theorem run_blocked (h : Run (queues (2 ^ 64 - 1) moved) tr q) : Blocked tr q := by
  refine Run.invariant (I := Blocked) ?_ ?_ h
  · rintro q rfl
    exact ⟨fun _ => rfl, rfl, rfl, Or.inl rfl, rfl, rfl⟩
  · rintro tr q a q' - hb (⟨value, hstep⟩ | hstep)
    · have hblocked := hb.producer
      rw [show ringSize (2 ^ 64 - 1) = 0 from rfl] at hstep
      cases hp : q.producer with
      | idle =>
          simp only [producerStep, hp] at hstep
          cases hstep
          exact ⟨hb.ring, hb.indices, rfl, hb.consumer, hb.internal.1, hb.internal.2⟩
      | loadedWrite v write =>
          simp only [producerStep, hp, if_pos] at hstep
          cases hstep
          exact ⟨hb.ring, hb.indices, rfl, hb.consumer, hb.internal.1, hb.internal.2⟩
      | constructing v write next =>
          rw [hp] at hblocked
          exact absurd hblocked Bool.false_ne_true
      | storing v next =>
          rw [hp] at hblocked
          exact absurd hblocked Bool.false_ne_true
      | crashed =>
          simp only [producerStep, hp] at hstep
          cases hstep
          exact ⟨hb.ring, hb.indices, hb.producer, hb.consumer, hb.internal.1, hb.internal.2⟩
    · rcases hb.consumer with hc | hc
      · simp only [consumerStep, hc] at hstep
        cases hstep
        exact ⟨hb.ring, hb.indices, hb.producer, Or.inr (congrArg _ hb.indices),
          hb.internal.1, hb.internal.2⟩
      · simp only [consumerStep, hc, if_pos] at hstep
        cases hstep
        refine ⟨hb.ring, hb.indices, hb.producer, Or.inl rfl, ?_, ?_⟩
        · rw [Channel.sent, observed_concat, ← Channel.sent, hb.sent]
          rfl
        · rw [Channel.received, observed_concat, ← Channel.received, hb.received]
          rfl

/-! ## Whole lives -/

theorem run_rests (hcap : capacity < 2 ^ 64) (h : Run (queues capacity moved) tr q)
    (hp : q.producer = .idle) (hc : q.consumer = .idle) : ∃ xs, Rests tr q xs := by
  by_cases hmax : capacity + 1 < 2 ^ 64
  · obtain ⟨xs, hxs, n, hinv⟩ := (refines hmax moved).run h
    exact ⟨xs, hinv.rests (run_conserves hxs).1 hp hc⟩
  · obtain rfl : capacity = 2 ^ 64 - 1 := by omega
    have hb := run_blocked h
    exact ⟨[], by rw [hb.sent, hb.received]; rfl, iff_of_true hb.indices rfl,
      iff_of_true hb.ring rfl⟩

/-- **When every value is accounted for.**  For a queue that is destroyed after any run of
    `try_push` and `try_pop`: exactly if the ring is empty, and no value that a move
    changes was refused. -/
theorem conserved_iff [DecidableEq T] (hcap : capacity < 2 ^ 64)
    (h : Run (queues capacity moved) tr q) (hp : q.producer = .idle)
    (hc : q.consumer = .idle) :
    Conserved (ringSize capacity) moved tr q
      ↔ (∀ v, .refused v ∈ tr → moved v = v) ∧ q.mReadIndex = q.mWriteIndex := by
  obtain ⟨xs, hrests⟩ := run_rests hcap h hp hc
  rw [hrests.indices]
  constructor
  · rintro ⟨hplaced, hended⟩
    have hnil : xs = [] := hrests.ring.mp hended
    have hlen := ((offered_perm tr).symm.trans hplaced).length_eq
    rw [destruct_fst, List.append_nil, hrests.sent, hnil, List.append_nil,
      List.length_append, List.length_append] at hlen
    -- as many values are kept as were refused
    have hkept : kept moved tr = refused tr :=
      List.filter_sublist.eq_of_length_le (Nat.le_of_eq (Nat.add_left_cancel hlen))
    refine ⟨?_, hnil⟩
    intro v hv
    exact of_decide_eq_true (List.filter_eq_self.mp hkept v (mem_refused.mpr hv))
  · rintro ⟨hrefused, hnil⟩
    have hkept : kept moved tr = refused tr :=
      List.filter_eq_self.mpr fun v hv => decide_eq_true (hrefused v (mem_refused.mp hv))
    refine ⟨?_, hrests.ring.mpr hnil⟩
    have hperm := offered_perm tr
    rw [hrests.sent, hnil, List.append_nil] at hperm
    rw [destruct_fst, List.append_nil, hkept]
    exact hperm

/-- A value is pushed and popped. -/
def pushThenPop : List (Event Nat) :=
  [.internal, .internal, .internal, .pushed 5, .internal, .internal, .internal, .internal,
    .popped 5]

theorem run_pushed : ∃ q, Run (queues 1 fun _ => 0) [.internal, .internal, .internal, .pushed 5] q
    ∧ q.producer = .idle ∧ q.consumer = .idle ∧ q.mRingBuffer 0 = some 5 := by
  have hstart : Run (queues 1 fun _ => 0) [] (Queue.construct : Queue Nat) := .start rfl
  exact ⟨_, (((hstart.snoc (.inl ⟨5, rfl⟩)).snoc (.inl ⟨5, rfl⟩)).snoc (.inl ⟨5, rfl⟩)).snoc
    (.inl ⟨5, rfl⟩), rfl, rfl, rfl⟩

theorem pushThenPop_conserved : ∃ q, Run (queues 1 fun _ => 0) pushThenPop q
    ∧ Conserved (ringSize 1) (fun _ => 0) pushThenPop q := by
  have hstart : Run (queues 1 fun _ => 0) [] (Queue.construct : Queue Nat) := .start rfl
  have hpush := (((hstart.snoc (.inl ⟨5, rfl⟩)).snoc (.inl ⟨5, rfl⟩)).snoc
    (.inl ⟨5, rfl⟩)).snoc (.inl ⟨5, rfl⟩)
  have hpop := ((((hpush.snoc (.inr rfl)).snoc (.inr rfl)).snoc (.inr rfl)).snoc
    (.inr rfl)).snoc (.inr rfl)
  refine ⟨_, hpop, (conserved_iff (by decide) hpop rfl rfl).mpr ⟨?_, rfl⟩⟩
  intro v hv
  simp at hv

/-- **Elements left in the ring are not destroyed**: a queue with one element in it ends. -/
theorem pushOnly_not_conserved :
    ¬ ∀ (tr : List (Event Nat)) (q : Queue Nat), Run (queues 1 fun _ => 0) tr q →
      q.producer = .idle → q.consumer = .idle → Conserved (ringSize 1) (fun _ => 0) tr q := by
  intro hall
  obtain ⟨q, hrun, hp, hc, hslot⟩ := run_pushed
  have hended : q.mRingBuffer 0 = none := (hall _ q hrun hp hc).ended 0
  rw [hslot] at hended
  exact nomatch hended

end LFSPSCQueue
