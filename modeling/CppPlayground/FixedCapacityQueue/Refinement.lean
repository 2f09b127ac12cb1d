import CppPlayground.Lib.Ring
import CppPlayground.FixedCapacityQueue.Model

/-! # `FixedCapacityQueue` refines a bounded FIFO queue

    `Rep` is the circular-interval invariant: the elements lie in the slots from
    `m_head_index` on and around the end, and no computation has wrapped.  One
    specification per member keeps it, `refines` makes them a simulation of
    `boundedFifo`, and `runs_refine_boundedFifo` reads it over whole runs. -/

namespace FixedCapacityQueue

open Program Storage Transition

variable {A T α : Type} {E : Element T} {k : Construct A T} {capacity : Nat} {q : Queue T}
  {x : T} {xs : List T}

/-- The queue stands for the list of its elements. -/
structure Rep (capacity : Nat) (q : Queue T) (xs : List T) : Prop where
  capacity_eq : q.mCapacity = capacity
  small : capacity < 2 ^ 63
  head : q.mHeadIndex < capacity
  size : q.mSize = xs.length
  unwrapped : q.wrapped = false
  holds : HoldsRing capacity q.mHeadIndex q.mData xs

theorem Rep.empty_eq (h : Rep capacity q xs) : q.empty = xs.isEmpty := by
  rw [Queue.empty, h.size]
  cases xs <;> rfl

theorem Rep.full_iff (h : Rep capacity q xs) : q.full = true ↔ xs.length = capacity := by
  rw [Queue.full, h.size, h.capacity_eq]
  exact beq_iff_eq

/-! ## Index arithmetic -/

theorem wp_sizeAdd {a b : Nat} (hab : a + b < 2 ^ 64) {Q : Nat → Queue T → Prop}
    {F : Exn → Queue T → Prop} : wp (sizeAdd a b) Q F q ↔ Q (a + b) q := by
  rw [sizeAdd, wp_bind, wp_modify, wp_pure, Nat.mod_eq_of_lt hab,
    decide_eq_false (Nat.not_le.mpr hab), Bool.or_false]

theorem wp_sizeSub {a b : Nat} (hba : b ≤ a) (ha : a < 2 ^ 64) {Q : Nat → Queue T → Prop}
    {F : Exn → Queue T → Prop} : wp (sizeSub a b) Q F q ↔ Q (a - b) q := by
  have hsub : (a + 2 ^ 64 - b) % 2 ^ 64 = a - b := by
    rw [show a + 2 ^ 64 - b = a - b + 2 ^ 64 by omega, Nat.add_mod_right,
      Nat.mod_eq_of_lt (by omega)]
  rw [sizeSub, wp_bind, wp_modify, wp_pure, hsub, decide_eq_false (Nat.not_lt.mpr hba),
    Bool.or_false]

/-- `tail_index` is the place behind the last element. -/
theorem tailIndex_spec (h : Rep capacity q xs) (hroom : xs.length < capacity)
    {F : Exn → Queue T → Prop} :
    wp tailIndex (fun i q' => i = (q.mHeadIndex + xs.length) % capacity ∧ q' = q) F q := by
  have hsmall := h.small
  have hhead := h.head
  have hjump := jump_mod hhead hroom
  simp only [tailIndex, wp_bind, wp_gets, h.size, h.capacity_eq]
  rw [wp_sizeAdd (by omega), wp_ite]
  constructor
  · intro hle
    rw [wp_sizeSub hle (by omega)]
    rw [if_pos hle] at hjump
    exact ⟨hjump, rfl⟩
  · intro hle
    rw [if_neg hle] at hjump
    exact ⟨hjump, rfl⟩

/-- `advance_index` moves on by one place and counts one element less. -/
theorem advanceHeadIndex_spec (hcap : q.mCapacity = capacity) (hsmall : capacity < 2 ^ 63)
    (hhead : q.mHeadIndex < capacity) {n : Nat} (hsize : q.mSize = n + 1) (hn : n < capacity)
    {F : Exn → Queue T → Prop} :
    wp advanceHeadIndex (fun _ q' => q' = { q with
      mHeadIndex := (q.mHeadIndex + 1) % capacity, mSize := n }) F q := by
  simp only [advanceHeadIndex, wp_bind, wp_gets]
  rw [wp_sizeAdd (by omega)]
  simp only [wp_modify, setSize, hsize]
  rw [wp_sizeSub (by omega) (by omega), hcap, next_mod hhead, Nat.add_sub_cancel]

/-! ## Members -/

/-- How a constructing member runs: a full queue returns at once, with room the constructor
    is called. -/
theorem wp_constructElement (h : Rep capacity q xs) (k : Construct A T) {fails : Bool}
    {args : A} {Q : Bool × A → Queue T → Prop} {F : Exn → Queue T → Prop}
    (hfull : xs.length = capacity → Q (false, args) q)
    (hthrows : fails = true → xs.length < capacity → F .element q)
    (hreturns : fails = false → xs.length < capacity →
      ∀ q', Rep capacity q' (xs ++ [k.build args]) → Q (true, k.left args) q') :
    wp (constructElement k fails args) Q F q := by
  have hsmall := h.small
  rw [constructElement, wp_bind, wp_gets, wp_ite]
  constructor
  · intro hfull'
    exact hfull (h.full_iff.mp hfull')
  · intro hfull'
    have hroom : xs.length < capacity :=
      Nat.lt_of_le_of_ne h.holds.fits fun heq => hfull' (h.full_iff.mpr heq)
    rw [wp_bind]
    refine wp_mono (tailIndex_spec h hroom) ?_ (fun _ _ he => he)
    rintro i q' ⟨rfl, rfl⟩
    have hlt : (q'.mHeadIndex + xs.length) % capacity < q'.mCapacity := by
      rw [h.capacity_eq]
      exact Nat.mod_lt _ (by omega)
    have hsize := h.size
    simp only [wp_bind, wp_gets, onData, wp_zoom, wp_constructAt]
    refine ⟨hlt, h.holds.behind hroom, ?_, ?_⟩
    · intro e he
      cases fails with
      | true =>
          obtain rfl := Option.some.inj he
          exact hthrows rfl hroom
      | false => cases he
    · intro hnone
      rw [wp_sizeAdd (by omega)]
      have hfails : fails = false := by
        cases fails with
        | true => cases hnone
        | false => rfl
      refine hreturns hfails hroom _ ⟨h.capacity_eq, hsmall, h.head, ?_, h.unwrapped,
        h.holds.push hroom _⟩
      rw [List.length_append]
      exact congrArg (· + 1) hsize

/-- **The constructing members**: at a full queue nothing happens, not even to the
    arguments; an exception of the element leaves the queue as it was. -/
theorem constructElement_spec (h : Rep capacity q xs) (k : Construct A T) (fails : Bool)
    (args : A) :
    wp (constructElement k fails args)
      (fun r q' => (xs.length = capacity ∧ r = (false, args) ∧ q' = q)
        ∨ (xs.length < capacity ∧ r = (true, k.left args)
          ∧ Rep capacity q' (xs ++ [k.build args])))
      (fun e q' => e = .element ∧ fails = true ∧ q' = q) q :=
  wp_constructElement h k (fun hfull => Or.inl ⟨hfull, rfl, rfl⟩)
    (fun hfails _ => ⟨rfl, hfails, rfl⟩)
    (fun _ hroom _ hq' => Or.inr ⟨hroom, rfl, hq'⟩)

/-- Another value in front. -/
theorem Rep.setFront (h : Rep capacity q (x :: xs)) (v : T) :
    Rep capacity { q with mData := Function.update q.mData q.mHeadIndex (some v) }
      (v :: xs) := by
  have hset := h.holds.setFront v
  rw [Nat.mod_eq_of_lt h.head] at hset
  exact ⟨h.capacity_eq, h.small, h.head, h.size, h.unwrapped, hset⟩

theorem Rep.front (h : Rep capacity q (x :: xs)) : q.mData q.mHeadIndex = some x := by
  have hfront := h.holds.front
  rwa [Nat.mod_eq_of_lt h.head] at hfront

theorem destructElement_spec (h : Rep capacity q (x :: xs)) {F : Exn → Queue T → Prop} :
    wp destructElement (fun _ q' => Rep capacity q' xs) F q := by
  have hfits := h.holds.fits
  rw [List.length_cons] at hfits
  have hpop := h.holds.pop
  rw [Nat.mod_eq_of_lt h.head] at hpop
  rw [destructElement, wp_bind, wp_gets, wp_ite]
  constructor
  · intro hempty
    rw [h.empty_eq] at hempty
    exact nomatch hempty
  · intro _
    simp only [wp_bind, wp_gets, onData, wp_zoom, wp_destroyAt]
    refine ⟨by rw [h.front]; rfl, ?_⟩
    -- the slot is empty already, but `m_head_index` and `m_size` still count it
    refine wp_mono (advanceHeadIndex_spec
      (q := { q with mData := Function.update q.mData q.mHeadIndex none })
      h.capacity_eq h.small h.head h.size hfits) ?_ (fun _ _ he => he)
    rintro _ q' rfl
    exact ⟨h.capacity_eq, h.small, Nat.mod_lt _ (by omega), rfl, h.unwrapped, hpop.reduce⟩

/-- What a call leaves that throws: everything as it was, but for the front element that a
    `pop` has failed to move. -/
def Leaves (E : Element T) (q q' : Queue T) : Op A T → Prop
  | .pop => ∃ x, q.mData q.mHeadIndex = some x
      ∧ q' = { q with
          mData := Function.update q.mData q.mHeadIndex (some (E.halfMoved x)) }
  | _ => q' = q

/-- **`pop`** returns the oldest element; a throwing move only touches that element. -/
theorem pop_spec (h : Rep capacity q xs) (E : Element T) (fails : Bool) :
    wp (pop E fails)
      (fun r q' => r = xs.head? ∧ Rep capacity q' xs.tail)
      (fun e q' => e = .element ∧ fails = true ∧ Leaves E q q' (.pop : Op A T)) q := by
  rw [pop, wp_bind, wp_gets, wp_ite]
  constructor
  · intro hempty
    rw [h.empty_eq, List.isEmpty_iff] at hempty
    subst hempty
    exact ⟨rfl, h⟩
  · intro hempty
    rw [h.empty_eq] at hempty
    obtain ⟨x, ys, rfl⟩ : ∃ x ys, xs = x :: ys := by
      cases xs with
      | nil => exact absurd rfl hempty
      | cons x ys => exact ⟨x, ys, rfl⟩
    have hsome : (q.mData q.mHeadIndex).isSome := by
      rw [h.front]
      rfl
    simp only [wp_bind, wp_gets, onData, wp_zoom, wp_load, wp_assignAt, wp_ite]
    refine ⟨x, h.front, fun hfails => ⟨hsome, rfl, hfails, x, h.front, rfl⟩,
      fun _ => ⟨hsome, ?_⟩⟩
    -- the moved-from element stands in front, whatever the move has made of it
    refine wp_mono (destructElement_spec (h.setFront (E.moved x))) ?_ (fun _ _ he => he)
    intro _ q' hq'
    exact ⟨rfl, hq'⟩

/-- **`clear`** terminates with an empty queue. -/
theorem clear_spec (h : Rep capacity q xs) {F : Exn → Queue T → Prop} :
    wp clear (fun _ q' => Rep capacity q' []) F q := by
  rw [clear, wp_bind, wp_gets]
  -- each round removes one element: `m_size` is the variant
  refine wp_mono (wp_whileLoop (fun q' => ∃ ys, Rep capacity q' ys) Queue.mSize ?_ _ q
    (Nat.lt_succ_self _) ⟨xs, h⟩) ?_ (fun _ _ he => he)
  · rintro q' hcond ⟨ys, hq'⟩
    rw [hq'.empty_eq] at hcond
    cases ys with
    | nil => exact nomatch hcond
    | cons y ys =>
        refine wp_mono (destructElement_spec hq') ?_ (fun _ _ he => he)
        intro _ q'' hq''
        refine ⟨⟨ys, hq''⟩, ?_⟩
        rw [hq''.size, hq'.size]
        exact Nat.lt_succ_self _
  · rintro _ q' ⟨⟨ys, hq'⟩, hcond⟩
    rw [hq'.empty_eq] at hcond
    cases ys with
    | nil => exact hq'
    | cons y ys => exact nomatch hcond

/-- The destructor leaves no element behind. -/
theorem destruct_spec (h : Rep capacity q xs) {F : Exn → Queue T → Prop} :
    wp destruct (fun _ q' => ∀ p, q'.mData p = none) F q := by
  refine wp_mono (clear_spec h) ?_ (fun _ _ he => he)
  intro _ q' hq' p
  rw [← Option.not_isSome_iff_eq_none, hq'.holds.isSome_iff]
  rintro ⟨i, hi, -⟩
  exact absurd hi (Nat.not_lt_zero i)

/-! ## The bounded FIFO queue -/

/-- Append, if there is room. -/
def offer (capacity : Nat) (xs : List T) (v : T) : List T :=
  if xs.length < capacity then xs ++ [v] else xs

/-- One operation on the list of the elements, oldest first: a full queue refuses and
    leaves the arguments alone, an empty queue has nothing to pop. -/
def fifoExec (capacity : Nat) (E : Element T) (k : Construct A T) (xs : List T) :
    Op A T → Answer A T × List T
  | .pushCopy v => (.pushed (decide (xs.length < capacity)) v, offer capacity xs v)
  | .pushMove v =>
      (if xs.length < capacity then .pushed true (E.moved v) else .pushed false v,
        offer capacity xs v)
  | .emplace args =>
      (if xs.length < capacity then .emplaced true (k.left args) else .emplaced false args,
        offer capacity xs (k.build args))
  | .pop => (.popped xs.head?, xs.tail)
  | .clear => (.cleared, [])

/-- The bounded FIFO queue as a system; its calls always return. -/
def boundedFifo (E : Element T) (k : Construct A T) (capacity : Nat) :
    System (List T) (Op A T × Outcome Exn (Answer A T)) where
  init xs := xs = []
  step xs a xs' := ∃ answer, a.2 = .ok answer ∧ fifoExec capacity E k xs a.1 = (answer, xs')

/-- One constructing member, in terms of the list. -/
theorem constructElement_offer {B : Type} (h : Rep capacity q xs) (k : Construct B T)
    (fails : Bool) (args : B) :
    wp (constructElement k fails args)
      (fun r q' => r = (if xs.length < capacity then (true, k.left args) else (false, args))
        ∧ Rep capacity q' (offer capacity xs (k.build args)))
      (fun e q' => e = .element ∧ fails = true ∧ q' = q) q := by
  refine wp_mono (constructElement_spec h k fails args) ?_ (fun _ _ he => he)
  rintro r q' (⟨hfull, rfl, rfl⟩ | ⟨hroom, rfl, hq'⟩)
  · have hnot : ¬ xs.length < capacity := by omega
    rw [offer, if_neg hnot, if_neg hnot]
    exact ⟨rfl, h⟩
  · rw [offer, if_pos hroom, if_pos hroom]
    exact ⟨rfl, hq'⟩

/-- **One call** answers as the list does and leaves the queue standing for the list, or
    throws the exception of a constructor. -/
theorem exec_spec (h : Rep capacity q xs) (fails : Bool) (op : Op A T) :
    wp (exec E k fails op)
      (fun r q' => r = (fifoExec capacity E k xs op).1
        ∧ Rep capacity q' (fifoExec capacity E k xs op).2)
      (fun e q' => e = .element ∧ fails = true ∧ Leaves E q q' op) q := by
  cases op with
  | pushCopy v =>
      rw [exec, pushCopy, wp_bind]
      refine wp_mono (constructElement_offer h .copy fails v) ?_ (fun _ _ he => he)
      rintro r q' ⟨rfl, hq'⟩
      -- `push(const T &)` leaves its argument alone, so only the flag can differ
      refine ⟨?_, hq'⟩
      show _ = Answer.pushed (decide (xs.length < capacity)) v
      by_cases hroom : xs.length < capacity
      · rw [if_pos hroom, decide_eq_true hroom]
        rfl
      · rw [if_neg hroom, decide_eq_false hroom]
  | pushMove v =>
      rw [exec, pushMove, wp_bind]
      refine wp_mono (constructElement_offer h (.move E) fails v) ?_ (fun _ _ he => he)
      rintro r q' ⟨rfl, hq'⟩
      refine ⟨?_, hq'⟩
      show _ = if xs.length < capacity then Answer.pushed true (E.moved v) else .pushed false v
      by_cases hroom : xs.length < capacity
      · rw [if_pos hroom, if_pos hroom]
        rfl
      · rw [if_neg hroom, if_neg hroom]
  | emplace args =>
      rw [exec, emplace, wp_bind]
      refine wp_mono (constructElement_offer h k fails args) ?_ (fun _ _ he => he)
      rintro r q' ⟨rfl, hq'⟩
      refine ⟨?_, hq'⟩
      show _ = if xs.length < capacity then Answer.emplaced true (k.left args)
        else .emplaced false args
      by_cases hroom : xs.length < capacity
      · rw [if_pos hroom, if_pos hroom]
      · rw [if_neg hroom, if_neg hroom]
  | pop =>
      rw [exec, wp_bind]
      refine wp_mono (pop_spec (A := A) h E fails) ?_ (fun _ _ he => he)
      rintro r q' ⟨rfl, hq'⟩
      exact ⟨rfl, hq'⟩
  | clear =>
      rw [exec, wp_bind]
      refine wp_mono (clear_spec h) ?_ (fun _ _ he => he)
      intro _ q' hq'
      exact ⟨rfl, hq'⟩

/-! ## Whole runs -/

section Runs

variable {allocates : Nat → Bool}

/-- The constructor rejects `0` and otherwise builds an empty queue. -/
theorem construct_rep (halloc : ∀ n, allocates n = true → n < 2 ^ 63)
    (h : construct allocates capacity = .ok q) : 0 < capacity ∧ Rep capacity q [] := by
  by_cases ha : allocates capacity = true
  · by_cases h0 : capacity = 0
    · rw [construct, if_pos ha, if_pos h0] at h
      exact nomatch h
    · rw [construct, if_pos ha, if_neg h0, Outcome.ok.injEq] at h
      subst h
      have hpos : 0 < capacity := Nat.pos_of_ne_zero h0
      exact ⟨hpos, rfl, halloc _ ha, hpos, rfl, rfl, holdsRing_empty capacity 0⟩
  · rw [construct, if_neg ha] at h
    exact nomatch h

/-- The queue simulates the bounded FIFO queue, labels included. -/
theorem refines (halloc : ∀ n, allocates n = true → n < 2 ^ 63) :
    Simulation (queues E k allocates capacity) (boundedFifo E k capacity) (Rep capacity) where
  init q hq := ⟨[], rfl, (construct_rep halloc hq).2⟩
  step q xs a q' h hstep := by
    obtain ⟨op, out⟩ := a
    obtain ⟨r, q'', hrun, rfl, hq''⟩ :=
      wp_returns (exec_spec (E := E) (k := k) h false op) (fun _ _ he => nomatch he.2.1)
    rw [show exec E k false op q = (out, q') from hstep, Prod.mk.injEq] at hrun
    obtain ⟨rfl, rfl⟩ := hrun
    exact ⟨_, ⟨_, rfl, rfl⟩, hq''⟩

/-- **`FixedCapacityQueue` refines the bounded FIFO queue over whole runs.**  Every run
    is, call by call and answer by answer, a run of the bounded FIFO queue.  Where it
    ends, the indices are in range, no computation of the run has wrapped around, a slot
    holds an element exactly if it is `(m_head_index + i) % m_capacity` for an
    `i < m_size`, and in that order the slots hold the queue. -/
theorem runs_refine_boundedFifo (halloc : ∀ n, allocates n = true → n < 2 ^ 63)
    {tr : List (Op A T × Outcome Exn (Answer A T))}
    (h : Run (queues E k allocates capacity) tr q) :
    0 < capacity ∧ q.mCapacity = capacity ∧ q.mHeadIndex < q.mCapacity
      ∧ q.mSize ≤ q.mCapacity ∧ q.wrapped = false
      ∧ (∀ p, (q.mData p).isSome ↔ ∃ i < q.mSize, (q.mHeadIndex + i) % q.mCapacity = p)
      ∧ ∃ xs, Run (boundedFifo E k capacity) tr xs ∧ xs.length = q.mSize
        ∧ (List.range q.mSize).map (fun i => q.mData ((q.mHeadIndex + i) % q.mCapacity))
          = xs.map some := by
  obtain ⟨xs, hxs, hr⟩ := (refines halloc).run h
  have hpos : 0 < capacity := Nat.lt_of_le_of_lt (Nat.zero_le _) hr.head
  rw [hr.size, hr.capacity_eq]
  exact ⟨hpos, rfl, hr.head, hr.holds.fits, hr.unwrapped, hr.holds.isSome_iff, xs, hxs, rfl,
    hr.holds.contents⟩

end Runs

/-- Every call can be the next one. -/
theorem run_call {allocates : Nat → Bool} {tr : List (Op A T × Outcome Exn (Answer A T))}
    (h : Run (queues E k allocates capacity) tr q) (op : Op A T) :
    Run (queues E k allocates capacity) (tr ++ [(op, (exec E k false op q).1)])
      (exec E k false op q).2 :=
  .snoc h rfl

/-- A queue of two integers; `0` is what a move leaves behind. -/
def smallQueues : System (Queue Nat) (Op Nat Nat × Outcome Exn (Answer Nat Nat)) :=
  queues ⟨0, fun _ => 0, fun _ => 0, fun _ _ => false⟩ .copy (· < 2 ^ 63) 2

/-- It wraps around with elements stored. -/
def wrappingCalls : List (Op Nat Nat × Outcome Exn (Answer Nat Nat)) :=
  [(.pushCopy 1, .ok (.pushed true 1)), (.pushMove 2, .ok (.pushed true 0)),
    (.pushMove 3, .ok (.pushed false 3)), (.pop, .ok (.popped (some 1))),
    (.emplace 4, .ok (.emplaced true 4)), (.pop, .ok (.popped (some 2)))]

theorem wrappingCalls_refine : ∃ q, Run smallQueues wrappingCalls q
    ∧ q.mHeadIndex = 0 ∧ q.wrapped = false
    ∧ ∀ p, (q.mData p).isSome ↔ ∃ i < q.mSize, (q.mHeadIndex + i) % q.mCapacity = p := by
  have hstart : Run smallQueues [] ⟨fun _ => none, 2, 0, 0, false⟩ := .start rfl
  have hrun := run_call (run_call (run_call (run_call (run_call (run_call hstart
    (.pushCopy 1)) (.pushMove 2)) (.pushMove 3)) .pop) (.emplace 4)) .pop
  obtain ⟨-, -, -, -, hw, hslots, -⟩ :=
    runs_refine_boundedFifo (fun n hn => of_decide_eq_true hn) hrun
  exact ⟨_, hrun, rfl, hw, hslots⟩

end FixedCapacityQueue
