import CppPlayground.LFSPSCQueue.Refinement

/-! # `LFSPSCQueue`: how many slots there are

    The constructor asks for `capacity + 1` slots, in `size_t`.  For every capacity but the
    largest there is one slot more than elements, the indices stay in the ring, and from
    any position of the indices an empty queue takes `capacity` values.  For the largest
    one the sum is `0`: a vector of no slots is made, and every `try_push` divides by its
    size. -/

namespace LFSPSCQueue

open Storage Transition Channel

variable {T : Type} {capacity n : Nat} {moved : T → T} {q : Queue T} {xs : List T}

/-- `LFSPSCQueue(capacity)`; `holds` says how many slots a `std::vector` can have, it throws
    at the others. -/
def Queue.tryConstruct (holds : Nat → Bool) (capacity : Nat) : Option (Queue T) :=
  if holds (ringSize capacity) then some Queue.construct else none

/-- The steps of a call of `try_push(value)`, so many at most, and what it returns. -/
def runProducer (size : Nat) (value : T) : Nat → Queue T → Option (Bool × Queue T)
  | 0, _ => none
  | steps + 1, q =>
      match producerStep size value q with
      | (.pushed _, q') => some (true, q')
      | (.refused _, q') => some (false, q')
      | (_, q') => runProducer size value steps q'

/-- A call of `try_push(value)`, without a step of the consumer in between.  It has four
    steps; where one of them is undefined it returns nothing. -/
def tryPush (size : Nat) (value : T) (q : Queue T) : Option (Bool × Queue T) :=
  runProducer size value 4 q

/-- What consecutive calls of `try_push` return. -/
def pushAll (size : Nat) : List T → Queue T → Option (List Bool)
  | [], _ => some []
  | v :: vs, q => do
      let (pushed, q') ← tryPush size v q
      let rest ← pushAll size vs q'
      pure (pushed :: rest)

/-- The arithmetic of the ring is safe: there is a slot, in every state the indices are in
    the ring and nothing undefined has happened, and an empty queue takes `capacity` values
    and no more. -/
structure RingSafe (T : Type) (capacity : Nat) : Prop where
  slots : 0 < ringSize capacity
  indices : ∀ (moved : T → T) q, Reachable (queues capacity moved) q →
    q.mReadIndex < ringSize capacity ∧ q.mWriteIndex < ringSize capacity
      ∧ q.producer ≠ .crashed ∧ q.consumer ≠ .crashed
  usable : ∀ (moved : T → T) q, Reachable (queues capacity moved) q → q.producer = .idle →
    q.mReadIndex = q.mWriteIndex → ∀ vs : List T, vs.length = capacity + 1 →
      pushAll (ringSize capacity) vs q = some (List.replicate capacity true ++ [false])

/-! ## One call -/

/-- A call in the first half of which the queue is found full. -/
theorem tryPush_full (hcap : capacity + 1 < 2 ^ 64) (h : Inv capacity moved q n xs)
    (hidle : q.producer = .idle) (hfull : xs.length = capacity) (v : T) :
    ∃ q', tryPush (ringSize capacity) v q = some (false, q') := by
  have hnext : nextIndex (capacity + 1) q.mWriteIndex = q.mReadIndex := by
    rw [h.write, nextIndex_mod hcap, h.read]
    exact (next_eq_read_iff h.fits).mpr hfull
  rw [ringSize_eq hcap]
  simp only [tryPush, runProducer, producerStep, hidle, if_neg (Nat.succ_ne_zero capacity),
    if_pos hnext]
  exact ⟨_, rfl⟩

/-- A call that finds room constructs the value in a free slot and publishes it. -/
theorem tryPush_room (hcap : capacity + 1 < 2 ^ 64) (h : Inv capacity moved q n xs)
    (hidle : q.producer = .idle) (hroom : xs.length < capacity) (v : T) :
    ∃ q', tryPush (ringSize capacity) v q = some (true, q') ∧ q'.producer = .idle
      ∧ Inv capacity moved q' n (xs ++ [v]) := by
  have hnext : ¬ nextIndex (capacity + 1) q.mWriteIndex = q.mReadIndex := by
    rw [h.write, nextIndex_mod hcap, h.read, next_eq_read_iff h.fits]
    exact Nat.ne_of_lt hroom
  have hnone : constructed q.producer = [] := by rw [hidle]; rfl
  obtain ⟨hwrite, hfree, -⟩ := h.behind hnone hroom
  have hslot := And.intro hwrite (Option.isNone_iff_eq_none.mpr hfree)
  -- past the check, the two steps that are left are steps of the channel
  have hchecked := h.setProducer (p := .constructing v q.mWriteIndex
    (nextIndex (capacity + 1) q.mWriteIndex)) hnone rfl ⟨rfl, rfl, hroom⟩
  obtain ⟨xs₁, hstep₁, hconstructed⟩ := producer_step hcap hchecked v
  rw [ringSize_eq hcap] at hstep₁ hconstructed
  simp only [producerStep, if_pos hslot] at hstep₁ hconstructed
  obtain rfl : xs₁ = xs := hstep₁
  obtain ⟨xs₂, hstep₂, hpublished⟩ := producer_step hcap hconstructed v
  rw [ringSize_eq hcap] at hstep₂ hpublished
  simp only [producerStep] at hstep₂ hpublished
  obtain ⟨-, rfl⟩ := hstep₂
  refine ⟨_, ?_, rfl, hpublished⟩
  rw [ringSize_eq hcap]
  simp only [tryPush, runProducer, producerStep, hidle, if_neg (Nat.succ_ne_zero capacity),
    if_neg hnext, if_pos hslot]

/-! ## Consecutive calls -/

/-- **The usable slots**: as many calls succeed as there is room, and the next one does
    not. -/
theorem pushAll_eq (hcap : capacity + 1 < 2 ^ 64) (vs : List T)
    (h : Inv capacity moved q n xs) (hidle : q.producer = .idle)
    (hlength : xs.length + vs.length = capacity + 1) :
    pushAll (ringSize capacity) vs q
      = some (List.replicate (capacity - xs.length) true ++ [false]) := by
  induction vs generalizing q xs with
  | nil =>
      have hfits := h.fits
      rw [List.length_nil] at hlength
      omega
  | cons v vs ih =>
      rw [List.length_cons] at hlength
      rw [pushAll]
      by_cases hroom : xs.length < capacity
      · obtain ⟨q', hpush, hidle', hinv⟩ := tryPush_room hcap h hidle hroom v
        have hrest := ih hinv hidle' (by
          rw [List.length_append, List.length_singleton]
          omega)
        rw [hpush]
        show (pushAll (ringSize capacity) vs q').bind (fun rest => some (true :: rest)) = _
        rw [hrest, List.length_append, List.length_singleton, Option.bind_some,
          ← List.cons_append, ← List.replicate_succ]
        congr 3
        omega
      · have hfull : xs.length = capacity := Nat.le_antisymm h.fits (Nat.not_lt.mp hroom)
        obtain ⟨q', hpush⟩ := tryPush_full hcap h hidle hfull v
        obtain rfl : vs = [] := List.length_eq_zero_iff.mp (by omega)
        rw [hpush, hfull, Nat.sub_self]
        rfl

/-- Every capacity but the largest. -/
theorem ringSafe_of_lt (T : Type) (hcap : capacity + 1 < 2 ^ 64) : RingSafe T capacity where
  slots := by
    rw [ringSize_eq hcap]
    exact Nat.succ_pos capacity
  indices moved q := by
    rintro ⟨tr, hrun⟩
    obtain ⟨xs, -, n, hinv⟩ := (refines hcap moved).run hrun
    have hsafe := hinv.safeAccess
    rw [ringSize_eq hcap, hinv.read, hinv.write]
    exact ⟨Nat.mod_lt _ (Nat.succ_pos _), Nat.mod_lt _ (Nat.succ_pos _), hsafe.producer,
      hsafe.consumer⟩
  usable moved q := by
    rintro ⟨tr, hrun⟩ hidle hempty vs hlength
    obtain ⟨xs, -, n, hinv⟩ := (refines hcap moved).run hrun
    rw [hinv.read, hinv.write, read_eq_write_iff hinv.fits] at hempty
    subst hempty
    have hall := pushAll_eq hcap vs hinv hidle (by rw [List.length_nil]; omega)
    rwa [List.length_nil, Nat.sub_zero] at hall

/-- **The arithmetic of the ring is safe for every capacity but `SIZE_MAX`.**  For that one
    the constructor returns as well, as a vector of no slots can be made. -/
theorem ringSafe_iff (holds : Nat → Bool) (hempty : holds 0 = true) (hcap : capacity < 2 ^ 64) :
    ((Queue.tryConstruct holds capacity : Option (Queue T)) ≠ none → RingSafe T capacity)
      ↔ capacity ≠ 2 ^ 64 - 1 := by
  constructor
  · rintro hsafe rfl
    have hreturns : (Queue.tryConstruct holds (2 ^ 64 - 1) : Option (Queue T)) ≠ none := by
      rw [Queue.tryConstruct, show ringSize (2 ^ 64 - 1) = 0 from rfl, if_pos hempty]
      exact Option.some_ne_none _
    exact absurd (hsafe hreturns).slots (by decide)
  · intro hmax _
    exact ringSafe_of_lt T (by omega)

/-- Vectors of fewer than `2 ^ 63` slots. -/
def fewerThanHalf (slots : Nat) : Bool := slots < 2 ^ 63

/-- A queue of two takes two values out of three, also where the indices have wrapped. -/
theorem ringSafe_two : RingSafe Nat 2
    ∧ pushAll (ringSize 2) [7, 8, 9] (Queue.construct : Queue Nat) = some [true, true, false]
    ∧ pushAll (ringSize 2) [7, 8, 9] (⟨fun _ => none, 2, 2, .idle, .idle⟩ : Queue Nat)
      = some [true, true, false] := by
  have hreturns : (Queue.tryConstruct fewerThanHalf 2 : Option (Queue Nat)) ≠ none :=
    Option.some_ne_none Queue.construct
  exact ⟨(ringSafe_iff fewerThanHalf rfl (by decide)).mpr (by decide) hreturns, rfl, rfl⟩

/-- `LFSPSCQueue<T>(SIZE_MAX)` is constructed, with a ring of no slots: the first
    `try_push` divides by `0`. -/
theorem sizeMax_not_ringSafe :
    (Queue.tryConstruct fewerThanHalf (2 ^ 64 - 1) : Option (Queue Nat)) ≠ none
      ∧ ringSize (2 ^ 64 - 1) = 0
      ∧ tryPush (ringSize (2 ^ 64 - 1)) 5 (Queue.construct : Queue Nat) = none
      ∧ ¬ RingSafe Nat (2 ^ 64 - 1) := by
  refine ⟨Option.some_ne_none Queue.construct, rfl, rfl, fun h => ?_⟩
  exact absurd h.slots (by decide)

end LFSPSCQueue
