import Mathlib.Data.Prod.Lex
import CppPlayground.BoundedBlockingQueue.WakeUps
import CppPlayground.Lib.Progress

/-! # `BoundedBlockingQueue`: coming to rest, and who is left

    Without new calls and spurious wake-ups the threads come to rest after finitely many
    steps, whatever throws (`executions_call_or_wake_up`).  What is left then, if nothing
    has thrown, depends on nothing but how many calls of each side there were
    (`at_rest`): the queue holds the surplus of pushers as far as it fits, the rest of
    them is asleep, and so is the surplus of poppers. -/

namespace BoundedBlockingQueue

open Transition Threads

variable {I T : Type} {capacity : Nat} {s s' : State I T} {t : I}

/-! ## The rank -/

/-- In a call that has still to notify the other side. -/
def Point.unfinished : Point T → Bool
  | .idle | .unwinding _ | .crashed => false
  | _ => true

/-- How far a thread is from the next point where it rests, in steps. -/
def Point.weight : Point T → Nat
  | .locking _ | .woken _ => 5
  | .checking _ _ => 4
  | .sleepy _ | .operating _ _ => 3
  | .asleep _ | .unlocking _ _ => 2
  | .notifying _ _ | .unwinding _ => 1
  | .idle | .crashed => 0

variable [Fintype I]

/-- A call wakes at most one thread, and then it is finished. -/
def State.rank (s : State I T) : Nat ×ₗ Nat :=
  toLex (number Point.unfinished s.point, total Point.weight s.point)

variable [DecidableEq I]

/-- A step of one thread within a call, or out of one that unwinds. -/
theorem rank_goto {p p' : Point T} (hp : s.point t = p)
    (hs' : s'.point = Function.update s.point t p') (hsame : p'.unfinished = p.unfinished)
    (hnext : p.weight = p'.weight + 1) : s'.rank < s.rank := by
  refine Prod.Lex.toLex_lt_toLex.mpr (Or.inr ⟨?_, ?_⟩)
  · show number Point.unfinished s'.point = number Point.unfinished s.point
    rw [hs']
    exact number_update_same (by rw [hp, hsame])
  · show total Point.weight s'.point < total Point.weight s.point
    rw [hs']
    refine total_update_lt ?_
    rw [hp, hnext]
    exact Nat.lt_succ_self _

/-- A step of one thread that finishes its call. -/
theorem rank_finish {p p' : Point T} (hp : s.point t = p)
    (hs' : s'.point = Function.update s.point t p') (hbefore : p.unfinished = true)
    (hafter : p'.unfinished = false) : s'.rank < s.rank := by
  refine Prod.Lex.toLex_lt_toLex.mpr (Or.inl ?_)
  have hleave : number Point.unfinished (Function.update s.point t p') + 1
      = number Point.unfinished s.point :=
    number_update_leave (by rw [hp]; exact hbefore) hafter
  show number Point.unfinished s'.point < number Point.unfinished s.point
  rw [hs']
  omega

/-- Neither a new call nor a spurious wake-up. -/
def Choice.Regular : Choice I T → Prop
  | .call _ => False
  | .wakeUp => False
  | _ => True

/-- **One step.** -/
theorem rank_lt {ch : Choice I T} {e : Event T} (hmoves : Moves capacity s t ch e s')
    (hregular : ch.Regular) : s'.rank < s.rank := by
  cases hmoves with
  | call call hp => exact absurd hregular id
  | wakeUp call hp => exact absurd hregular id
  | lock call hp hm => exact rank_goto hp rfl rfl rfl
  | relock call hp hm => exact rank_goto hp rfl rfl rfl
  | accept call slept hp hr => exact rank_goto hp rfl rfl rfl
  | refuse call slept hp hr => exact rank_goto hp rfl rfl rfl
  | sleep call hp => exact rank_goto hp rfl rfl rfl
  | insert call slept value hp hside => exact rank_goto hp rfl rfl rfl
  | remove call slept value rest hp hside hq => exact rank_goto hp rfl rfl rfl
  | unlock call result hp => exact rank_goto hp rfl rfl rfl
  | unwind call hp => exact rank_goto hp rfl rfl rfl
  | crash call slept hp hside hq => exact rank_finish hp rfl rfl rfl
  | fail call slept left hp => exact rank_finish hp rfl rfl rfl
  | notifyNone call result hp hu => exact rank_finish hp rfl rfl rfl
  | notifyOne call call' result u hp hu hside =>
      -- the woken thread goes back to the start of its loop, but this call is over
      have hne : t ≠ u := by
        rintro rfl
        rw [hp] at hu
        exact nomatch hu
      have hpt : (s.goto u (.woken call')).point t = .notifying call result := by
        show Function.update s.point u _ t = _
        rw [Function.update_of_ne hne, hp]
      have hsame : number Point.unfinished (s.goto u (.woken call')).point
          = number Point.unfinished s.point := number_update_same (by rw [hu]; rfl)
      have hleave : number Point.unfinished
          (Function.update (s.goto u (.woken call')).point t .idle) + 1
          = number Point.unfinished (s.goto u (.woken call')).point :=
        number_update_leave (by rw [hpt]; rfl) rfl
      refine Prod.Lex.toLex_lt_toLex.mpr (Or.inl ?_)
      show number Point.unfinished
        (Function.update (s.goto u (.woken call')).point t Point.idle) < _
      rw [← hsame]
      omega

/-- **The threads come to rest**: an execution makes new calls for ever, or threads wake
    up for no reason for ever. -/
theorem executions_call_or_wake_up (e : Execution (queues I T capacity)) (k : Nat) :
    ∃ i, k ≤ i ∧ ((∃ call, (e.label i).2.1 = .call call) ∨ (e.label i).2.1 = .wakeUp) := by
  have hlowers : ∀ tr s (a : Label I T) s', Run (queues I T capacity) tr s → a.2.1.Regular →
      (queues I T capacity).step s a s' → s'.rank < s.rank :=
    fun _ _ _ _ _ hregular hstep => rank_lt (step_moves hstep) hregular
  obtain ⟨i, hki, hi⟩ := e.leaves State.rank hlowers k
  refine ⟨i, hki, ?_⟩
  cases hch : (e.label i).2.1 with
  | call c => exact Or.inl ⟨c, rfl⟩
  | wakeUp => exact Or.inr rfl
  | _ =>
      rw [hch] at hi
      exact absurd trivial hi

/-- A popper of an empty queue, outside the mutex or inside. -/
inductive PopsNothing (t : I) (s : State I T) : Prop where
  | outside : s.mQueue = [] → s.mMutex = none → (s.point t = .idle ∨ s.point t = .locking .pop
      ∨ s.point t = .asleep .pop ∨ s.point t = .woken .pop) → PopsNothing t s
  | inside : s.mQueue = [] → s.mMutex = some t → (s.point t = .sleepy .pop
      ∨ ∃ slept, s.point t = .checking .pop slept) → PopsNothing t s

/-- It has a step, and finds nothing. -/
theorem PopsNothing.next (h : PopsNothing t s) :
    ∃ a s', (queues I T capacity).step s a s' ∧ PopsNothing t s' := by
  have hpoint : ∀ p, Function.update s.point t p t = p := fun _ => Function.update_self _ _ _
  cases h with
  | outside hempty hfree hp =>
      rcases hp with hp | hp | hp | hp
      · refine ⟨(t, .call .pop, .internal), s.goto t (.locking .pop), ?_,
          .outside hempty hfree (Or.inr (Or.inl (hpoint _)))⟩
        simp only [queues, step, hp]
      · refine ⟨(t, .next, .internal), { s.goto t (.checking .pop false) with mMutex := some t },
          ?_, .inside hempty rfl (Or.inr ⟨_, hpoint _⟩)⟩
        simp only [queues, step, hp, State.lock, hfree, if_true]
      · refine ⟨(t, .wakeUp, .internal), s.goto t (.woken .pop), ?_,
          .outside hempty hfree (Or.inr (Or.inr (Or.inr (hpoint _))))⟩
        simp only [queues, step, hp]
      · refine ⟨(t, .next, .internal), { s.goto t (.checking .pop true) with mMutex := some t },
          ?_, .inside hempty rfl (Or.inr ⟨_, hpoint _⟩)⟩
        simp only [queues, step, hp, State.lock, hfree, if_true]
  | inside hempty howner hp =>
      rcases hp with hp | ⟨slept, hp⟩
      · refine ⟨(t, .next, .internal), s.unlock t (.asleep .pop), ?_,
          .outside hempty rfl (Or.inr (Or.inr (Or.inl (hpoint _))))⟩
        simp only [queues, step, hp]
      · refine ⟨(t, .next, .internal), s.goto t (.sleepy .pop), ?_,
          .inside hempty howner (Or.inl (hpoint _))⟩
        have hnot : ready capacity s.mQueue (Call.pop : Call T).side = false := by
          rw [hempty]
          rfl
        simp only [queues, step, hp, hnot, Bool.false_eq_true, if_false]

/-- There are executions: a thread can wake up for ever, and find nothing to pop. -/
theorem exists_popsNothing (t : I) (capacity : Nat) :
    ∃ e : Execution (queues I T capacity), ∀ i, PopsNothing t (e.state i) :=
  exists_execution_within rfl (.outside rfl rfl (Or.inl rfl)) fun _ h => h.next

/-! ## What is left -/

/-- A call of a side. -/
def Choice.calls (d : Side) : Choice I T → Bool
  | .call c => c.side = d
  | _ => false

/-- What a side does to the queue. -/
def Event.operates (d : Side) : Event T → Bool
  | .inserted _ => d = .push
  | .removed _ => d = .pop
  | _ => false

/-- In a call of a side that has not changed the queue yet. -/
def Point.pending (d : Side) : Point T → Bool
  | .locking call | .checking call _ | .sleepy call | .asleep call | .woken call
  | .operating call _ => call.side = d
  | _ => false

/-- How many calls of a side there were. -/
def called (d : Side) (tr : List (Label I T)) : Nat := tr.countP fun a => a.2.1.calls d

/-- How many of them have changed the queue. -/
def operated (d : Side) (tr : List (Label I T)) : Nat := tr.countP fun a => a.2.2.operates d

/-- Every call has changed the queue or is still pending. -/
structure Accounted (tr : List (Label I T)) (s : State I T) : Prop where
  calls : ∀ d, called d tr = operated d tr + number (Point.pending d) s.point
  queue : operated .push tr = operated .pop tr + s.mQueue.length

omit [Fintype I] [DecidableEq I] in
theorem called_concat (d : Side) (tr : List (Label I T)) (a : Label I T) :
    called d (tr ++ [a]) = called d tr + (a.2.1.calls d).toNat := by
  rw [called, List.countP_append, List.countP_singleton]
  cases a.2.1.calls d <;> rfl

omit [Fintype I] [DecidableEq I] in
theorem operated_concat (d : Side) (tr : List (Label I T)) (a : Label I T) :
    operated d (tr ++ [a]) = operated d tr + (a.2.2.operates d).toNat := by
  rw [operated, List.countP_append, List.countP_singleton]
  cases a.2.2.operates d <;> rfl

/-- A step of one thread: what it calls becomes pending or has changed the queue. -/
theorem Accounted.goto {tr : List (Label I T)} (h : Accounted tr s) {ch : Choice I T}
    {e : Event T} {p p' : Point T} (hp : s.point t = p)
    (hs' : s'.point = Function.update s.point t p')
    (hcalls : ∀ d, (ch.calls d).toNat + (p.pending d).toNat
      = (e.operates d).toNat + (p'.pending d).toNat)
    (hqueue : s'.mQueue.length + (e.operates .pop).toNat
      = s.mQueue.length + (e.operates .push).toNat) :
    Accounted (tr ++ [(t, ch, e)]) s' where
  calls d := by
    have hbefore := h.calls d
    have hstep := hcalls d
    have hnumber := number_update (Point.pending d) s.point t p'
    rw [hp, ← hs'] at hnumber
    rw [called_concat, operated_concat]
    show called d tr + (ch.calls d).toNat = operated d tr + (e.operates d).toNat + _
    omega
  queue := by
    have hbefore := h.queue
    rw [operated_concat, operated_concat]
    show operated .push tr + (e.operates .push).toNat
      = operated .pop tr + (e.operates .pop).toNat + _
    omega

/-- A step of one thread within a call, on one side of its change of the queue. -/
theorem Accounted.internal {tr : List (Label I T)} (h : Accounted tr s) {ch : Choice I T}
    {p p' : Point T} (hp : s.point t = p) (hs' : s'.point = Function.update s.point t p')
    (hcalls : ∀ d, ch.calls d = false) (hsame : ∀ d, p'.pending d = p.pending d)
    (hqueue : s'.mQueue = s.mQueue) : Accounted (tr ++ [(t, ch, .internal)]) s' := by
  refine h.goto hp hs' (fun d => ?_) (by rw [hqueue]; rfl)
  rw [hcalls d, hsame d]
  rfl

/-- **One step** without an exception. -/
theorem accounted_step {tr : List (Label I T)} {ch : Choice I T} {e : Event T}
    (h : Accounted tr s) (hex : Exclusive capacity s) (hmoves : Moves capacity s t ch e s')
    (hquiet : ∀ left, ch ≠ .fail left) : Accounted (tr ++ [(t, ch, e)]) s' := by
  cases hmoves with
  | call call hp =>
      exact h.goto hp rfl (fun d => by
        show (decide (call.side = d)).toNat + 0 = 0 + (decide (call.side = d)).toNat
        omega) rfl
  | lock call hp hm => exact h.internal hp rfl (fun _ => rfl) (fun _ => rfl) rfl
  | relock call hp hm => exact h.internal hp rfl (fun _ => rfl) (fun _ => rfl) rfl
  | accept call slept hp hr => exact h.internal hp rfl (fun _ => rfl) (fun _ => rfl) rfl
  | refuse call slept hp hr => exact h.internal hp rfl (fun _ => rfl) (fun _ => rfl) rfl
  | sleep call hp => exact h.internal hp rfl (fun _ => rfl) (fun _ => rfl) rfl
  | unlock call result hp => exact h.internal hp rfl (fun _ => rfl) (fun _ => rfl) rfl
  | unwind call hp => exact h.internal hp rfl (fun _ => rfl) (fun _ => rfl) rfl
  | wakeUp call hp => exact h.internal hp rfl (fun _ => rfl) (fun _ => rfl) rfl
  | insert call slept value hp hside =>
      refine h.goto hp rfl (fun d => ?_) ?_
      · show 0 + (decide (call.side = d)).toNat = (decide (d = .push)).toNat + 0
        rw [hside, Nat.zero_add, Nat.add_zero]
        exact congrArg Bool.toNat (decide_eq_decide.mpr eq_comm)
      · show (s.mQueue ++ [value]).length + 0 = s.mQueue.length + 1
        rw [List.length_append, List.length_singleton]
  | remove call slept value rest hp hside hq =>
      refine h.goto hp rfl (fun d => ?_) ?_
      · show 0 + (decide (call.side = d)).toNat = (decide (d = .pop)).toNat + 0
        rw [hside, Nat.zero_add, Nat.add_zero]
        exact congrArg Bool.toNat (decide_eq_decide.mpr eq_comm)
      · show rest.length + 1 = s.mQueue.length + 0
        rw [hq]
        rfl
  | crash call slept hp hside hq =>
      have hfull := hex.knows t
      rw [hp] at hfull
      exact absurd hq ((ready_pop_iff hside).mp hfull)
  | fail call slept left hp => exact absurd rfl (hquiet left)
  | notifyNone call result hp hu =>
      exact h.goto hp rfl (fun _ => rfl) rfl
  | notifyOne call call' result u hp hu hside =>
      have hne : t ≠ u := by
        rintro rfl
        rw [hp] at hu
        exact nomatch hu
      -- waking a thread leaves its call pending
      have hwoken : Accounted tr (s.goto u (.woken call')) := by
        refine ⟨fun d => ?_, h.queue⟩
        rw [h.calls d]
        refine congrArg _ (number_update_same ?_).symm
        rw [hu]
        rfl
      refine hwoken.goto (p := .notifying call result) ?_ rfl (fun _ => rfl) rfl
      show Function.update s.point u _ t = _
      rw [Function.update_of_ne hne, hp]

theorem run_accounted {tr : List (Label I T)}
    (h : Run ((queues I T capacity).restrict fun s a => quietStep s a = true) tr s) :
    Accounted tr s := by
  refine Run.invariant (S := (queues I T capacity).restrict fun s a => quietStep s a = true)
    (I := Accounted) ?_ ?_ h
  · rintro s rfl
    refine ⟨fun d => ?_, rfl⟩
    rw [number_eq_zero_iff.mpr fun _ => rfl]
    rfl
  · rintro as s ⟨t, ch, e⟩ s' hrun haccounted ⟨hstep, hquiet⟩
    exact accounted_step haccounted (run_exclusive hrun) (step_moves hstep)
      (not_fail_of_quietStep hquiet)

/-- No thread can go on, unless it makes a new call or wakes up for no reason. -/
def AtRest (capacity : Nat) (s : State I T) : Prop :=
  ∀ t, step capacity s t .next = none ∧ ∀ u, step capacity s t (.notify u) = none

/-- Then every thread is idle or asleep. -/
theorem AtRest.allAsleep (h : AtRest capacity s) (hex : Exclusive capacity s) :
    AllAsleep s := by
  -- the owner of the mutex could go on, so it is free
  have hmutex : s.mMutex = none := by
    cases hm : s.mMutex with
    | none => rfl
    | some t =>
        have hholds := (hex.holder t).mpr hm
        have hnext := (h t).1
        cases hp : s.point t with
        | checking call slept =>
            cases hr : ready capacity s.mQueue call.side <;>
              simp [step, hp, hr] at hnext
        | sleepy call => simp [step, hp] at hnext
        | operating call slept => simp [step, hp] at hnext
        | unlocking call result => simp [step, hp] at hnext
        | unwinding call => simp [step, hp] at hnext
        | _ =>
            rw [hp] at hholds
            exact absurd hholds Bool.false_ne_true
  intro t
  obtain ⟨hnext, hnotify⟩ := h t
  cases hp : s.point t with
  | idle => exact Or.inl rfl
  | asleep call => exact Or.inr ⟨call, rfl⟩
  | locking call => simp [step, hp, State.lock, hmutex] at hnext
  | woken call => simp [step, hp, State.lock, hmutex] at hnext
  | notifying call result =>
      by_cases hu : ∃ u, (s.point u).asleepOn call.side.other = true
      · obtain ⟨u, hu⟩ := hu
        have hone := hnotify (some u)
        cases hpu : s.point u with
        | asleep call' =>
            rw [hpu] at hu
            have hside : call'.side = call.side.other := of_decide_eq_true hu
            simp [step, hp, hpu, hside] at hone
        | _ =>
            rw [hpu] at hu
            exact absurd hu Bool.false_ne_true
      · have hnone := hnotify none
        have hall : ∀ u, (s.point u).asleepOn call.side.other = false := fun u =>
          Bool.eq_false_of_not_eq_true fun hu' => hu ⟨u, hu'⟩
        simp [step, hp, hall] at hnone
  | crashed =>
      have hknows := hex.knows t
      rw [hp] at hknows
      exact absurd hknows id
  | _ =>
      -- it would be the owner of the mutex
      have hholds := (hex.holder t).mp (by rw [hp]; rfl)
      rw [hmutex] at hholds
      cases hholds

/-- **What is left at rest.**  In a run in which nothing throws, once no thread can go on,
    the queue holds the surplus of calls of `push` and `emplace` over calls of `pop` as
    far as it fits, and as many pushers are asleep as do not fit, and as many poppers as
    there is no element for.  So all calls have returned if and only if there were as
    many calls of `pop` as of the others, or fewer by at most the capacity. -/
theorem at_rest (hcap : 1 ≤ capacity) {tr : List (Label I T)}
    (h : Run ((queues I T capacity).restrict fun s a => quietStep s a = true) tr s)
    (hrest : AtRest capacity s) :
    s.mQueue.length = min capacity (called .push tr - called .pop tr)
      ∧ number (Point.asleepOn .push) s.point
        = called .push tr - called .pop tr - capacity
      ∧ number (Point.asleepOn .pop) s.point = called .pop tr - called .push tr
      ∧ ((∀ t, s.point t = .idle) ↔ called .pop tr ≤ called .push tr
          ∧ called .push tr ≤ called .pop tr + capacity) := by
  have hex := run_exclusive h
  have hasleep := hrest.allAsleep hex
  have haccounted := run_accounted h
  have hpending : ∀ d, number (Point.pending d) s.point = number (Point.asleepOn d) s.point := by
    intro d
    refine Finset.sum_congr rfl fun t _ => congrArg Bool.toNat ?_
    rcases hasleep t with hp | ⟨call, hp⟩ <;> rw [hp] <;> rfl
  -- on each side nobody is asleep, or nothing is available
  have hidle : ∀ d, number (Point.asleepOn d) s.point = 0
      ∨ available capacity s.mQueue d = 0 := by
    intro d
    obtain ⟨hawake, howed⟩ := hasleep.counters capacity d
    rcases run_covered h d with hzero | hle
    · exact Or.inl hzero
    · rw [hawake, howed] at hle
      exact Or.inr (Nat.le_zero.mp hle)
  have hpush := haccounted.calls .push
  have hpop := haccounted.calls .pop
  rw [hpending] at hpush hpop
  have hqueue := haccounted.queue
  have hbound := hex.bounded
  have hidlePush : number (Point.asleepOn .push) s.point = 0 ∨ capacity - s.mQueue.length = 0 :=
    hidle .push
  have hidlePop : number (Point.asleepOn .pop) s.point = 0 ∨ s.mQueue.length = 0 := hidle .pop
  have hreturned : (∀ t, s.point t = .idle) ↔ number (Point.asleepOn .push) s.point = 0
      ∧ number (Point.asleepOn .pop) s.point = 0 := by
    rw [number_eq_zero_iff, number_eq_zero_iff]
    constructor
    · intro hall
      exact ⟨fun t => by rw [hall t]; rfl, fun t => by rw [hall t]; rfl⟩
    · rintro ⟨hnoPush, hnoPop⟩ t
      rcases hasleep t with hp | ⟨call, hp⟩
      · exact hp
      · have hpush := hnoPush t
        have hpop := hnoPop t
        rw [hp] at hpush hpop
        cases hside : call.side with
        | push => exact absurd hside (of_decide_eq_false hpush)
        | pop => exact absurd hside (of_decide_eq_false hpop)
  refine ⟨by omega, by omega, by omega, ?_⟩
  rw [hreturned]
  omega

/-- A popper and nobody who pushes. -/
def lonePopper : List (Bool × Choice Bool Nat) :=
  [(false, .call .pop), (false, .next), (false, .next), (false, .next)]

theorem lonePopper_at_rest : ∃ tr s,
    Run ((queues Bool Nat 1).restrict fun s a => quietStep s a = true) tr s
      ∧ number (Point.asleepOn .pop) s.point = 1 := by
  obtain ⟨tr, s, hexec, hpush, hpop, hrest⟩ : ∃ tr s,
      execute 1 quietStep (start : State Bool Nat) lonePopper = some (tr, s)
        ∧ called .push tr = 0 ∧ called .pop tr = 1 ∧ AtRest 1 s := by
    refine ⟨_, _, rfl, rfl, rfl, fun t => ⟨by cases t <;> rfl, fun u => ?_⟩⟩
    cases u with
    | none => cases t <;> rfl
    | some u => cases t <;> cases u <;> rfl
  have hrun := run_execute (C := fun s a => quietStep s a = true) hexec fun _ _ h => h
  obtain ⟨-, -, hasleep, -⟩ := at_rest (Nat.le_refl 1) hrun hrest
  exact ⟨tr, s, hrun, by rw [hasleep, hpush, hpop]⟩

end BoundedBlockingQueue
