import CppPlayground.Lib.Progress
import CppPlayground.LFSPSCQueue.WeakMemory

/-! # `LFSPSCQueue` makes progress

    Neither function waits for the other thread, so the calls of a thread that keeps
    running return.  What they achieve depends on what their loads return.  Where every
    store is seen after some time (`Visible`), as the standard asks of implementations, a
    consumer that keeps calling `try_pop` gets every value pushed, and a producer that
    keeps calling `try_push` gets values in without end. -/

namespace LFSPSCQueue.Weak

open Transition Channel ReleaseAcquire

variable {T : Type} {n capacity size : Nat} {moved : T → T} {value : T} {q q' : WeakQueue T}
  {xs : List T} {a : WeakEvent T} {t : Side}

/-! ## One step -/

/-- The thread takes the step. -/
def By (t : Side) (a : WeakEvent T) : Prop := ∃ act, a.1 = some (t, act)

/-- A call of the thread returns. -/
def Returns : Side → Event T → Prop
  | .producer, .pushed _ | .producer, .refused _ => True
  | .consumer, .popped _ | .consumer, .foundEmpty => True
  | _, _ => False

/-- How many steps there are at most before the one in which the call returns. -/
def WeakQueue.left (q : WeakQueue T) : Side → Nat
  | .producer =>
      match q.producer with
      | .idle => 3
      | .loadedWrite _ _ => 2
      | .constructing _ _ _ => 1
      | .storing _ _ | .crashed => 0
  | .consumer =>
      match q.consumer with
      | .idle => 4
      | .loadedRead _ => 3
      | .reading _ => 2
      | .destroying _ _ => 1
      | .storing _ _ | .crashed => 0

@[simp] theorem by_some {d : Side} {act : Action Side Nat} {b : Event T} :
    By t (some (d, act), b) ↔ d = t := by
  constructor
  · rintro ⟨act', heq⟩
    exact congrArg Prod.fst (Option.some.inj heq)
  · rintro rfl
    exact ⟨act, rfl⟩

@[simp] theorem not_by_none {b : Event T} : ¬ By t (none, b) := by
  rintro ⟨act, heq⟩
  exact Option.some_ne_none _ heq.symm

/-- **Every step leads towards a return**, or is taken by the other thread. -/
theorem ProducerMoves.returns_or_left (h : ProducerMoves size value q a q') (t : Side) :
    Returns t a.2 ∨ (q'.left t ≤ q.left t ∧ (By t a → q'.left t < q.left t)) := by
  cases t with
  | consumer =>
      refine Or.inr ⟨?_, fun hby => ?_⟩
      · cases h <;> exact Nat.le_refl _
      · cases h <;> simp at hby
  | producer =>
      cases h with
      | refuse hp hload hfull => exact Or.inl trivial
      | publish hp => exact Or.inl trivial
      | crash hcrash => exact Or.inr ⟨Nat.zero_le _, fun hby => absurd hby not_by_none⟩
      | loadWrite hp hload => simp [WeakQueue.left, hp]
      | findRoom hp hload hroom => simp [WeakQueue.left, hp]
      | construct hp hordered => simp [WeakQueue.left, hp]

theorem ConsumerMoves.returns_or_left (h : ConsumerMoves size moved q a q') (t : Side) :
    Returns t a.2 ∨ (q'.left t ≤ q.left t ∧ (By t a → q'.left t < q.left t)) := by
  cases t with
  | producer =>
      refine Or.inr ⟨?_, fun hby => ?_⟩
      · cases h <;> exact Nat.le_refl _
      · cases h <;> simp at hby
  | consumer =>
      cases h with
      | findEmpty hc hload => exact Or.inl trivial
      | release hc => exact Or.inl trivial
      | crash hcrash => exact Or.inr ⟨Nat.zero_le _, fun hby => absurd hby not_by_none⟩
      | loadRead hc hload => simp [WeakQueue.left, hc]
      | findValue hc hload hvalue => simp [WeakQueue.left, hc]
      | read hc hslot hordered => simp [WeakQueue.left, hc]
      | destroy hc hordered => simp [WeakQueue.left, hc]

theorem returns_or_left (hcap : capacity + 1 < 2 ^ 64)
    (hstep : (weakQueues capacity moved).step q a q') (t : Side) :
    Returns t a.2 ∨ (q'.left t ≤ q.left t ∧ (By t a → q'.left t < q.left t)) := by
  rcases step_moves hcap hstep with ⟨value, hmoves⟩ | hmoves
  · exact hmoves.returns_or_left t
  · exact hmoves.returns_or_left t

/-! ## Executions -/

section Executions

variable (e : Execution (weakQueues capacity moved))

/-- The thread takes step after step. -/
def Runs (t : Side) : Prop := Often fun i => By t (e.label i)

/-- What has been stored is seen by all loads after some time. -/
def Visible : Prop := ∀ i a, ∃ j, ∀ l, j ≤ l → ∀ t k acquire,
  (e.label l).1 = some (t, .load a k acquire) →
    ((e.state i).indices.messages a).length ≤ k + 1

/-- The values pushed before time `i`. -/
def pushes (i : Nat) : List T := sent (events (e.trace i))

/-- The values popped before time `i`. -/
def pops (i : Nat) : List T := received (events (e.trace i))

theorem pushes_succ (i : Nat) : pushes e (i + 1) = pushes e i ++ (e.label i).2.sends.toList := by
  rw [pushes, e.trace_succ, events, List.map_append, sent]
  exact observed_concat _ _ _

theorem pops_succ (i : Nat) : pops e (i + 1) = pops e i ++ (e.label i).2.receives.toList := by
  rw [pops, e.trace_succ, events, List.map_append, received]
  exact observed_concat _ _ _

theorem pushes_grow {i j : Nat} (hij : i ≤ j) : pushes e i <+: pushes e j := by
  induction hij with
  | refl => exact List.prefix_refl _
  | step _ ih =>
      rw [pushes_succ]
      exact ih.trans (List.prefix_append _ _)

theorem pops_le {i j : Nat} (hij : i ≤ j) : (pops e i).length ≤ (pops e j).length := by
  have hmono : Monotone fun i => (pops e i).length := by
    refine monotone_nat_of_le_succ fun i => ?_
    rw [pops_succ, List.length_append]
    exact Nat.le_add_right _ _
  exact hmono hij

variable {e} (hcap : capacity + 1 < 2 ^ 64)
include hcap

theorem state_inv (i : Nat) : ∃ xs, Inv capacity moved (e.state i) (pops e i).length xs
    ∧ pushes e i = pops e i ++ xs := by
  obtain ⟨n, xs, hinv, hn, hrun⟩ := run_inv hcap (e.run i)
  obtain ⟨hsent, -⟩ := run_conserves hrun
  rw [sent_quiet, received_quiet] at hsent
  subst hn
  exact ⟨xs, hinv, hsent⟩

/-- How often an index has been stored. -/
theorem messages_length (i : Nat) (a : Side) : ((e.state i).indices.messages a).length
    = (match a with | .producer => (pushes e i).length | .consumer => (pops e i).length) + 1 := by
  obtain ⟨xs, hinv, hpushes⟩ := state_inv hcap i
  rw [(hinv.knows a).length]
  cases a with
  | producer => rw [hpushes, List.length_append]; rfl
  | consumer => rfl

/-- **The calls of a thread that keeps running return**, whatever the other one does and
    whatever the loads return. -/
theorem calls_return (hruns : Runs e t) : Often fun i => Returns t (e.label i).2 := by
  intro k
  refine eventually_of_often (fun i => (e.state i).left t) k hruns ?_ ?_
  · intro i _
    exact (returns_or_left hcap (e.step i) t).imp id fun h => h.1
  · intro i _ hby
    exact (returns_or_left hcap (e.step i) t).imp id fun h => h.2 hby

/-- A pop that returns has popped a value or seen that there is none. -/
theorem pop_returns {i : Nat} (h : Returns .consumer (e.label i).2) :
    (pops e (i + 1)).length = (pops e i).length + 1
      ∨ (e.label i).1 = some (.consumer, .load mWriteIndex (pops e i).length true) := by
  obtain ⟨xs, hinv, -⟩ := state_inv hcap i
  have hstep := step_moves hcap (e.step i)
  rw [pops_succ, List.length_append]
  cases hlabel : e.label i with
  | mk act b =>
      rw [hlabel] at h hstep
      cases b with
      | popped v => exact Or.inl rfl
      | foundEmpty =>
          rcases hstep with ⟨value, hmoves⟩ | hmoves
          · cases hmoves
          · exact Or.inr (hinv.foundEmpty hmoves)
      | internal => exact h.elim
      | pushed v => exact h.elim
      | refused v => exact h.elim

/-- A push that returns has pushed the value or seen that there is no room. -/
theorem push_returns {i : Nat} (h : Returns .producer (e.label i).2) :
    (pushes e (i + 1)).length = (pushes e i).length + 1
      ∨ ∃ r, (e.label i).1 = some (.producer, .load mReadIndex r true)
        ∧ (pushes e i).length = r + capacity := by
  obtain ⟨xs, hinv, hpushes⟩ := state_inv hcap i
  have hstep := step_moves hcap (e.step i)
  rw [pushes_succ, List.length_append]
  cases hlabel : e.label i with
  | mk act b =>
      rw [hlabel] at h hstep
      cases b with
      | pushed v => exact Or.inl rfl
      | refused v =>
          rcases hstep with ⟨value, hmoves⟩ | hmoves
          · obtain ⟨r, hload, -, hfull⟩ := hinv.refused hcap hmoves
            rw [hpushes, List.length_append]
            exact Or.inr ⟨r, hload, hfull⟩
          · cases hmoves
      | internal => exact h.elim
      | popped v => exact h.elim
      | foundEmpty => exact h.elim

/-- Every value pushed is popped in the end. -/
theorem pops_reach (hvisible : Visible e) (hruns : Runs e .consumer) {i : Nat} (n : Nat)
    (hn : n ≤ (pushes e i).length) : ∃ j, n ≤ (pops e j).length := by
  induction n with
  | zero => exact ⟨0, Nat.zero_le _⟩
  | succ n ih =>
      obtain ⟨j₀, hj₀⟩ := ih (Nat.le_of_succ_le hn)
      obtain ⟨j₁, hseen⟩ := hvisible i mWriteIndex
      obtain ⟨l, hl, hreturns⟩ := calls_return hcap hruns (max j₀ j₁)
      have hpops := pops_le e (Nat.max_le.mp hl).1
      rcases pop_returns hcap hreturns with hpop | hload
      · exact ⟨l + 1, by omega⟩
      · -- the index it has loaded is not older than the push
        have hold : (pushes e i).length + 1 ≤ (pops e l).length + 1 :=
          (messages_length hcap i mWriteIndex).symm.trans_le
            (hseen l (Nat.max_le.mp hl).2 _ _ _ hload)
        exact ⟨l, by omega⟩

/-- No refusal is the last word. -/
theorem pushes_reach (hvisible : Visible e) (hruns : ∀ t, Runs e t) (hpos : 0 < capacity)
    (n : Nat) : ∃ i, n ≤ (pushes e i).length := by
  induction n with
  | zero => exact ⟨0, Nat.zero_le _⟩
  | succ n ih =>
      obtain ⟨i₀, hi₀⟩ := ih
      obtain ⟨j₀, hj₀⟩ := pops_reach hcap hvisible (hruns .consumer) n hi₀
      obtain ⟨j₁, hseen⟩ := hvisible j₀ mReadIndex
      obtain ⟨l, hl, hreturns⟩ := calls_return hcap (hruns .producer) (max i₀ j₁)
      have hpushes := (pushes_grow e (Nat.max_le.mp hl).1).length_le
      rcases push_returns hcap hreturns with hpush | ⟨r, hload, hfull⟩
      · exact ⟨l + 1, by omega⟩
      · -- the index it has loaded is not older than the pops
        have hold : (pops e j₀).length + 1 ≤ r + 1 :=
          (messages_length hcap j₀ mReadIndex).symm.trans_le
            (hseen l (Nat.max_le.mp hl).2 _ _ _ hload)
        exact ⟨l, by omega⟩

end Executions

/-- **The queue makes progress**, in every infinite execution.  The calls of a thread that
    keeps running return.  Where stores become visible, what has been pushed is popped
    after some time, if the consumer keeps running; and if the producer does too and there
    is room for a value, values are pushed without end. -/
theorem executions_make_progress (hcap : capacity + 1 < 2 ^ 64)
    (e : Execution (weakQueues capacity moved)) :
    (∀ t, Runs e t → Often fun i => Returns t (e.label i).2)
      ∧ (Visible e → Runs e .consumer → ∀ i, ∃ j, pushes e i <+: pops e j)
      ∧ (Visible e → (∀ t, Runs e t) → 0 < capacity → ∀ n, ∃ i, n ≤ (pushes e i).length) := by
  refine ⟨fun t => calls_return hcap, ?_, fun hvisible hruns hpos n =>
    pushes_reach hcap hvisible hruns hpos n⟩
  intro hvisible hruns i
  obtain ⟨j, hj⟩ := pops_reach hcap hvisible hruns _ (Nat.le_refl (pushes e i).length)
  obtain ⟨xs, -, hpushes⟩ := state_inv hcap j
  have hpops : pops e j <+: pushes e (max i j) :=
    (hpushes ▸ List.prefix_append _ xs).trans (pushes_grow e (Nat.le_max_right i j))
  exact ⟨j, List.prefix_of_prefix_length_le (pushes_grow e (Nat.le_max_left i j)) hpops hj⟩

/-! ## Such executions exist -/

/-- The load of a newest message. -/
def Newest (q : WeakQueue T) (a : WeakEvent T) : Prop :=
  ∀ t b k acquire, a.1 = some (t, .load b k acquire) → (q.indices.messages b).length ≤ k + 1

@[simp] theorem newest_load {d b : Side} {k : Nat} {acquire : Bool} {c : Event T} :
    Newest q (some (d, .load b k acquire), c) ↔ (q.indices.messages b).length ≤ k + 1 := by
  constructor
  · exact fun h => h d b k acquire rfl
  · intro h t b' k' acquire' heq
    cases heq
    exact h

/-- The newest message can be loaded. -/
theorem load_newest {m : Indices} {count busy : Side → Nat}
    (h : ∀ d, Knows size m count busy d) (t b : Side) (acquire : Bool) :
    ∃ k v m', m.load t b k acquire = some (v, m') ∧ (m.messages b).length ≤ k + 1 := by
  have hlength := (h b).length
  have hlt : count b < (m.messages b).length := by omega
  have hknown : (m.view t).2 b ≤ count b := by
    by_cases hb : b = t
    · rw [hb, (h t).own]
    · rw [eq_other_of_ne hb]
      exact (h t).known
  have hsome : (m.load t b (count b) acquire).isSome := by
    rw [Memory.load, if_pos hknown, List.getElem?_eq_getElem hlt]
    rfl
  obtain ⟨⟨v, m'⟩, hload⟩ := Option.isSome_iff_exists.mp hsome
  exact ⟨count b, v, m', hload, Nat.le_of_eq hlength⟩

theorem Inv.producer_can_step (h : Inv capacity moved q n xs) (value : T) :
    ∃ k x, producerStep (capacity + 1) value k q = some x ∧ By .producer x.1 ∧ Newest q x.1 := by
  cases hp : q.producer with
  | idle =>
      obtain ⟨k, write, m, hload, hnewest⟩ := load_newest h.knows .producer mWriteIndex false
      simp only [producerStep, hp]
      exact ⟨k, _, congrArg _ hload, by simp, by simpa using hnewest⟩
  | loadedWrite v write =>
      obtain ⟨k, read, m, hload, hnewest⟩ := load_newest h.knows .producer mReadIndex true
      simp only [producerStep, hp, if_neg (Nat.succ_ne_zero capacity)]
      refine ⟨k, _, congrArg _ hload, ?_⟩
      by_cases hfull : nextIndex (capacity + 1) write = read
      · simpa [if_pos hfull] using hnewest
      · simpa [if_neg hfull] using hnewest
  | constructing v write next =>
      simp only [producerStep, hp, if_pos (h.constructing hp).2]
      exact ⟨0, _, rfl, by simp, by simp [Newest]⟩
  | storing v next =>
      simp only [producerStep, hp]
      exact ⟨0, _, rfl, by simp, by simp [Newest]⟩
  | crashed => exact absurd hp h.producer_ne_crashed

theorem Inv.consumer_can_step (h : Inv capacity moved q n xs) :
    ∃ k x, consumerStep (capacity + 1) moved k q = some x ∧ By .consumer x.1 ∧ Newest q x.1 := by
  cases hc : q.consumer with
  | idle =>
      obtain ⟨k, read, m, hload, hnewest⟩ := load_newest h.knows .consumer mReadIndex false
      simp only [consumerStep, hc]
      exact ⟨k, _, congrArg _ hload, by simp, by simpa using hnewest⟩
  | loadedRead read =>
      obtain ⟨k, write, m, hload, hnewest⟩ := load_newest h.knows .consumer mWriteIndex true
      simp only [consumerStep, hc]
      refine ⟨k, _, congrArg _ hload, ?_⟩
      by_cases hempty : read = write
      · simpa [if_pos hempty] using hnewest
      · simpa [if_neg hempty] using hnewest
  | reading read =>
      obtain ⟨rfl, x, rest, -, hring, hordered⟩ := h.reading hc
      have hslot : q.mRingBuffer (n % (capacity + 1)) = some x := hring.front
      simp only [consumerStep, hc, hslot, if_pos hordered]
      exact ⟨0, _, rfl, by simp, by simp [Newest]⟩
  | destroying read result =>
      obtain ⟨rfl, rest, -, hring, hordered⟩ := h.destroying hc
      have hslot : (q.mRingBuffer (n % (capacity + 1))).isSome := by rw [hring.front]; rfl
      simp only [consumerStep, hc, if_pos (And.intro hslot hordered)]
      exact ⟨0, _, rfl, by simp, by simp [Newest]⟩
  | storing read result =>
      simp only [consumerStep, hc, if_neg (Nat.succ_ne_zero capacity)]
      exact ⟨0, _, rfl, by simp, by simp [Newest]⟩
  | crashed => exact absurd hc h.consumer_ne_crashed

/-- **Neither thread can be stopped**: it has a step, even one that loads the newest
    message. -/
theorem can_step (hcap : capacity + 1 < 2 ^ 64) (value : T) (t : Side) {tr : List (WeakEvent T)}
    (h : Run (weakQueues capacity moved) tr q) :
    ∃ a q', (weakQueues capacity moved).step q a q' ∧ By t a ∧ Newest q a := by
  obtain ⟨n, xs, hinv, -, -⟩ := run_inv hcap h
  cases t with
  | producer =>
      obtain ⟨k, x, hstep, hby, hnewest⟩ := hinv.producer_can_step value
      rw [← ringSize_eq hcap] at hstep
      exact ⟨x.1, x.2, ⟨k, .inl ⟨value, hstep⟩⟩, hby, hnewest⟩
  | consumer =>
      obtain ⟨k, x, hstep, hby, hnewest⟩ := hinv.consumer_can_step
      rw [← ringSize_eq hcap] at hstep
      exact ⟨x.1, x.2, ⟨k, .inr hstep⟩, hby, hnewest⟩

/-- The threads take turns and load what is newest. -/
theorem exists_alternating (capacity : Nat) (moved : T → T) (hcap : capacity + 1 < 2 ^ 64)
    (value : T) : ∃ e : Execution (weakQueues capacity moved), Visible e ∧ ∀ t, Runs e t := by
  obtain ⟨e, he⟩ := exists_execution (S := weakQueues capacity moved)
    (C := fun i q a => By (if i % 2 = 0 then .producer else .consumer) a ∧ Newest q a) rfl
    (fun i tr q hrun => can_step hcap value _ hrun)
  refine ⟨e, ?_, ?_⟩
  · intro i b
    refine ⟨i, fun l hil t k acquire hload => ?_⟩
    have hle : ((e.state i).indices.messages b).length
        ≤ ((e.state l).indices.messages b).length := by
      rw [messages_length hcap, messages_length hcap]
      cases b with
      | producer => exact Nat.succ_le_succ (pushes_grow e hil).length_le
      | consumer => exact Nat.succ_le_succ (pops_le e hil)
    exact hle.trans ((he l).2 t b k acquire hload)
  · intro t i
    cases t with
    | producer =>
        have hby := (he (2 * i)).1
        rw [if_pos (by omega)] at hby
        exact ⟨2 * i, by omega, hby⟩
    | consumer =>
        have hby := (he (2 * i + 1)).1
        rw [if_neg (by omega)] at hby
        exact ⟨2 * i + 1, by omega, hby⟩

theorem alternating_makes_progress : ∃ e : Execution (weakQueues 1 fun _ : Nat => 0),
    (∀ i, ∃ j, pushes e i <+: pops e j) ∧ ∀ n, ∃ i, n ≤ (pushes e i).length := by
  obtain ⟨e, hvisible, hruns⟩ := exists_alternating 1 (fun _ : Nat => 0) (by decide) 5
  obtain ⟨-, hpopped, hpushed⟩ := executions_make_progress (by decide) e
  exact ⟨e, hpopped hvisible (hruns .consumer), hpushed hvisible hruns Nat.one_pos⟩

end LFSPSCQueue.Weak
