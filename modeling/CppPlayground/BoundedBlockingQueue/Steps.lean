import CppPlayground.BoundedBlockingQueue.Model

/-! # `BoundedBlockingQueue`: what a step can do, and mutual exclusion

    `Moves` lists the steps of a thread, one constructor each, with everything a step
    requires and changes; `step_moves` says there are no others, and every invariant is a
    case analysis over it.  The first one is `Exclusive`: the thread between a lock and
    an unlock is the owner of the mutex, what it has found out about the queue still
    holds when it acts on it, and the queue stays within its capacity. -/

namespace BoundedBlockingQueue

open Transition

variable {I T : Type} [DecidableEq I] {capacity : Nat} {s s' : State I T} {t : I}

/-- The steps of thread `t`. -/
inductive Moves (capacity : Nat) (s : State I T) (t : I) :
    Choice I T → Event T → State I T → Prop where
  | call (call : Call T) (hp : s.point t = .idle) :
      Moves capacity s t (.call call) .internal (s.goto t (.locking call))
  | lock (call : Call T) (hp : s.point t = .locking call) (hm : s.mMutex = none) :
      Moves capacity s t .next .internal
        { s.goto t (.checking call false) with mMutex := some t }
  | relock (call : Call T) (hp : s.point t = .woken call) (hm : s.mMutex = none) :
      Moves capacity s t .next .internal
        { s.goto t (.checking call true) with mMutex := some t }
  | accept (call : Call T) (slept : Bool) (hp : s.point t = .checking call slept)
      (hr : ready capacity s.mQueue call.side = true) :
      Moves capacity s t .next .internal (s.goto t (.operating call slept))
  | refuse (call : Call T) (slept : Bool) (hp : s.point t = .checking call slept)
      (hr : ready capacity s.mQueue call.side = false) :
      Moves capacity s t .next .internal (s.goto t (.sleepy call))
  | sleep (call : Call T) (hp : s.point t = .sleepy call) :
      Moves capacity s t .next .internal (s.unlock t (.asleep call))
  | insert (call : Call T) (slept : Bool) (value : T)
      (hp : s.point t = .operating call slept) (hside : call.side = .push) :
      Moves capacity s t .next (.inserted value)
        { s.goto t (.unlocking call none) with mQueue := s.mQueue ++ [value] }
  | remove (call : Call T) (slept : Bool) (value : T) (rest : List T)
      (hp : s.point t = .operating call slept) (hside : call.side = .pop)
      (hq : s.mQueue = value :: rest) :
      Moves capacity s t .next (.removed value)
        { s.goto t (.unlocking call (some value)) with mQueue := rest }
  | crash (call : Call T) (slept : Bool) (hp : s.point t = .operating call slept)
      (hside : call.side = .pop) (hq : s.mQueue = []) :
      Moves capacity s t .next .internal (s.goto t .crashed)
  | unlock (call : Call T) (result : Option T) (hp : s.point t = .unlocking call result) :
      Moves capacity s t .next .internal (s.unlock t (.notifying call result))
  | unwind (call : Call T) (hp : s.point t = .unwinding call) :
      Moves capacity s t .next .internal (s.unlock t .idle)
  | wakeUp (call : Call T) (hp : s.point t = .asleep call) :
      Moves capacity s t .wakeUp .internal (s.goto t (.woken call))
  | fail (call : Call T) (slept : Bool) (left : T)
      (hp : s.point t = .operating call slept) :
      Moves capacity s t (.fail left) .internal
        { s.goto t (.unwinding call) with mQueue := failed s.mQueue left call }
  | notifyOne (call call' : Call T) (result : Option T) (u : I)
      (hp : s.point t = .notifying call result) (hu : s.point u = .asleep call')
      (hside : call'.side = call.side.other) :
      Moves capacity s t (.notify (some u)) (.returned result)
        ((s.goto u (.woken call')).goto t .idle)
  | notifyNone (call : Call T) (result : Option T)
      (hp : s.point t = .notifying call result)
      (hu : ∀ u, (s.point u).asleepOn call.side.other = false) :
      Moves capacity s t (.notify none) (.returned result) (s.goto t .idle)

theorem lock_eq_some {p : Point T} {e : Event T} (h : s.lock t p = some (e, s')) :
    s.mMutex = none ∧ e = .internal ∧ s' = { s.goto t p with mMutex := some t } := by
  by_cases hm : s.mMutex = none
  · rw [State.lock, if_pos hm, Option.some.injEq, Prod.mk.injEq] at h
    exact ⟨hm, h.1.symm, h.2.symm⟩
  · rw [State.lock, if_neg hm] at h
    exact nomatch h

/-- A thread that operates. -/
theorem operate_moves (capacity : Nat) {call : Call T} {slept : Bool}
    (hp : s.point t = .operating call slept) :
    Moves capacity s t .next (s.operate t call).1 (s.operate t call).2 := by
  cases call with
  | push value => exact .insert _ slept value hp rfl
  | emplace value => exact .insert _ slept value hp rfl
  | pop =>
      rw [State.operate]
      cases hq : s.mQueue with
      | nil => exact .crash _ slept hp rfl hq
      | cons value rest => exact .remove _ slept value rest hp rfl hq

variable [Fintype I]

/-- There are no other steps. -/
theorem step_moves {ch : Choice I T} {e : Event T}
    (h : step capacity s t ch = some (e, s')) : Moves capacity s t ch e s' := by
  cases ch with
  | call call =>
      cases hp : s.point t <;> simp only [step, hp, reduceCtorEq] at h
      obtain ⟨rfl, rfl⟩ := Prod.mk.inj (Option.some.inj h)
      exact .call call hp
  | next =>
      cases hp : s.point t <;> simp only [step, hp, reduceCtorEq] at h
      case locking call =>
        obtain ⟨hm, rfl, rfl⟩ := lock_eq_some h
        exact .lock call hp hm
      case checking call slept =>
        cases hr : ready capacity s.mQueue call.side with
        | true =>
            rw [hr, if_pos rfl] at h
            obtain ⟨rfl, rfl⟩ := Prod.mk.inj (Option.some.inj h)
            exact .accept call slept hp hr
        | false =>
            rw [hr, if_neg Bool.false_ne_true] at h
            obtain ⟨rfl, rfl⟩ := Prod.mk.inj (Option.some.inj h)
            exact .refuse call slept hp hr
      case sleepy call =>
        obtain ⟨rfl, rfl⟩ := Prod.mk.inj (Option.some.inj h)
        exact .sleep call hp
      case woken call =>
        obtain ⟨hm, rfl, rfl⟩ := lock_eq_some h
        exact .relock call hp hm
      case operating call slept =>
        have hmoves := operate_moves capacity hp
        rw [Option.some.inj h] at hmoves
        exact hmoves
      case unlocking call result =>
        obtain ⟨rfl, rfl⟩ := Prod.mk.inj (Option.some.inj h)
        exact .unlock call result hp
      case unwinding call =>
        obtain ⟨rfl, rfl⟩ := Prod.mk.inj (Option.some.inj h)
        exact .unwind call hp
  | wakeUp =>
      cases hp : s.point t <;> simp only [step, hp, reduceCtorEq] at h
      obtain ⟨rfl, rfl⟩ := Prod.mk.inj (Option.some.inj h)
      exact .wakeUp _ hp
  | fail left =>
      cases hp : s.point t <;> simp only [step, hp, reduceCtorEq] at h
      obtain ⟨rfl, rfl⟩ := Prod.mk.inj (Option.some.inj h)
      exact .fail _ _ left hp
  | notify woken =>
      cases woken with
      | some u =>
          cases hp : s.point t <;> cases hu : s.point u <;>
            simp only [step, hp, hu, reduceCtorEq] at h
          rename_i call result call'
          by_cases hside : call'.side = call.side.other
          · rw [if_pos hside] at h
            obtain ⟨rfl, rfl⟩ := Prod.mk.inj (Option.some.inj h)
            exact .notifyOne call call' result u hp hu hside
          · rw [if_neg hside] at h
            exact nomatch h
      | none =>
          cases hp : s.point t <;> simp only [step, hp, reduceCtorEq] at h
          rename_i call result
          by_cases hu : ∀ u, (s.point u).asleepOn call.side.other = false
          · rw [if_pos hu] at h
            obtain ⟨rfl, rfl⟩ := Prod.mk.inj (Option.some.inj h)
            exact .notifyNone call result hp hu
          · rw [if_neg hu] at h
            exact nomatch h

/-- A schedule that can be followed is a run. -/
theorem run_execute {C : State I T → Label I T → Prop}
    {allowed : State I T → Label I T → Bool} {schedule : List (I × Choice I T)}
    {tr : List (Label I T)}
    (hexec : execute capacity allowed start schedule = some (tr, s))
    (hC : ∀ s a, allowed s a = true → C s a) :
    Run ((queues I T capacity).restrict C) tr s := by
  -- from any state a run has reached
  have hfrom : ∀ (rest : List (I × Choice I T)) (before after : List (Label I T))
      (s₁ s₂ : State I T), Run ((queues I T capacity).restrict C) before s₁ →
        execute capacity allowed s₁ rest = some (after, s₂) →
        Run ((queues I T capacity).restrict C) (before ++ after) s₂ := by
    intro rest
    induction rest with
    | nil =>
        intro before after s₁ s₂ hrun h
        obtain ⟨rfl, rfl⟩ := Prod.mk.inj (Option.some.inj h)
        rw [List.append_nil]
        exact hrun
    | cons head rest ih =>
        obtain ⟨t, ch⟩ := head
        intro before after s₁ s₂ hrun h
        cases hstep : step capacity s₁ t ch with
        | none =>
            rw [execute, hstep] at h
            exact nomatch h
        | some r =>
            obtain ⟨e, s'⟩ := r
            rw [execute, hstep] at h
            cases hall : allowed s₁ (t, ch, e) with
            | false =>
                simp only [hall, Bool.false_eq_true, if_false, reduceCtorEq] at h
            | true =>
                simp only [hall, if_true, Option.map_eq_some_iff, Prod.mk.injEq] at h
                obtain ⟨⟨after', s₃⟩, hrest, rfl, rfl⟩ := h
                have hnext : Run ((queues I T capacity).restrict C)
                    (before ++ [(t, ch, e)]) s' := .snoc hrun ⟨hstep, hC _ _ hall⟩
                have := ih _ after' s' s₃ hnext hrest
                rwa [List.append_assoc] at this
  have := hfrom schedule [] tr start s (.start rfl) hexec
  rwa [List.nil_append] at this

/-! ## Mutual exclusion -/

omit [DecidableEq I] [Fintype I]

/-- Between acquiring and releasing the mutex. -/
def Point.holds : Point T → Bool
  | .checking _ _ | .sleepy _ | .operating _ _ | .unlocking _ _ | .unwinding _ => true
  | _ => false

/-- What a thread has found out about the queue before it reached this point. -/
def Point.Knows (capacity : Nat) (queue : List T) : Point T → Prop
  | .operating call _ => ready capacity queue call.side = true
  | .sleepy call => ready capacity queue call.side = false
  | .crashed => False
  | _ => True

/-- The owner of the mutex is the one thread that holds it, and all that the threads have
    found out about the queue is still true. -/
structure Exclusive (capacity : Nat) (s : State I T) : Prop where
  holder : ∀ t, (s.point t).holds = true ↔ s.mMutex = some t
  knows : ∀ t, (s.point t).Knows capacity s.mQueue
  bounded : s.mQueue.length ≤ capacity

theorem exclusive_start (capacity : Nat) :
    Exclusive capacity (start : State I T) where
  holder _ := ⟨nofun, nofun⟩
  knows _ := trivial
  bounded := Nat.zero_le _

/-- A thread that does not hold the mutex knows nothing about the queue. -/
theorem Point.knows_of_not_holds {p : Point T} (hp : p.holds = false) (hc : p ≠ .crashed)
    (queue : List T) : p.Knows capacity queue := by
  cases p with
  | operating call slept => exact nomatch hp
  | sleepy call => exact nomatch hp
  | crashed => exact absurd rfl hc
  | _ => trivial

variable [DecidableEq I]

/-- One thread moves to `p`, the queue becomes `queue` and the mutex `mutex`: the queue
    may change only under the mutex, and the mutex may not change for the others. -/
theorem Exclusive.move (h : Exclusive capacity s) {p : Point T} {queue : List T}
    {mutex : Option I} (hself : p.holds = true ↔ mutex = some t)
    (hothers : ∀ u, u ≠ t → (s.mMutex = some u ↔ mutex = some u))
    (hqueue : queue = s.mQueue ∨ (s.point t).holds = true) (hknows : p.Knows capacity queue)
    (hbound : queue.length ≤ capacity) :
    Exclusive capacity ⟨queue, mutex, Function.update s.point t p⟩ where
  holder u := by
    show (Function.update s.point t p u).holds = true ↔ mutex = some u
    by_cases hu : u = t
    · subst hu
      rw [Function.update_self]
      exact hself
    · rw [Function.update_of_ne hu, h.holder u]
      exact hothers u hu
  knows u := by
    show (Function.update s.point t p u).Knows capacity queue
    by_cases hu : u = t
    · subst hu
      rw [Function.update_self]
      exact hknows
    · rw [Function.update_of_ne hu]
      rcases hqueue with rfl | hholds
      · exact h.knows u
      · -- `t` owns the mutex, so `u` does not
        have hnot : (s.point u).holds = false := by
          rw [← Bool.not_eq_true, h.holder, (h.holder t).mp hholds]
          exact fun heq => hu (Option.some.inj heq).symm
        refine Point.knows_of_not_holds hnot ?_ queue
        intro hc
        have := h.knows u
        rw [hc] at this
        exact this
  bounded := hbound

/-- A step that neither touches the queue nor passes the mutex on. -/
theorem Exclusive.goto (h : Exclusive capacity s) {p : Point T}
    (hself : p.holds = (s.point t).holds) (hknows : p.Knows capacity s.mQueue) :
    Exclusive capacity (s.goto t p) :=
  h.move (by rw [hself]; exact h.holder t) (fun _ _ => Iff.rfl) (Or.inl rfl) hknows h.bounded

/-- Acquiring the mutex. -/
theorem Exclusive.acquire (h : Exclusive capacity s) (hm : s.mMutex = none) {p : Point T}
    (hself : p.holds = true) (hknows : p.Knows capacity s.mQueue) :
    Exclusive capacity { s.goto t p with mMutex := some t } :=
  h.move (iff_of_true hself rfl)
    (fun u hu => iff_of_false (by rw [hm]; exact nofun)
      (fun heq => hu (Option.some.inj heq).symm)) (Or.inl rfl) hknows h.bounded

/-- Releasing it. -/
theorem Exclusive.release (h : Exclusive capacity s) (hholds : (s.point t).holds = true)
    {p : Point T} (hself : p.holds = false) (hknows : p.Knows capacity s.mQueue) :
    Exclusive capacity (s.unlock t p) :=
  h.move (iff_of_false (by rw [hself]; exact nofun) nofun)
    (fun u hu => iff_of_false
      (by rw [(h.holder t).mp hholds]; exact fun heq => hu (Option.some.inj heq).symm) nofun)
    (Or.inl rfl) hknows h.bounded

/-- Working on the queue under the mutex. -/
theorem Exclusive.work (h : Exclusive capacity s) (hholds : (s.point t).holds = true)
    {p : Point T} (hself : p.holds = true) {queue : List T} (hknows : p.Knows capacity queue)
    (hbound : queue.length ≤ capacity) :
    Exclusive capacity { s.goto t p with mQueue := queue } :=
  h.move (iff_of_true hself ((h.holder t).mp hholds)) (fun _ _ => Iff.rfl) (Or.inr hholds)
    hknows hbound

omit [DecidableEq I] in
theorem ready_push_iff {queue : List T} {call : Call T} (hside : call.side = .push) :
    ready capacity queue call.side = true ↔ queue.length < capacity := by
  rw [hside]
  exact decide_eq_true_iff

omit [DecidableEq I] in
theorem ready_pop_iff {queue : List T} {call : Call T} (hside : call.side = .pop) :
    ready capacity queue call.side = true ↔ queue ≠ [] := by
  rw [hside]
  cases queue <;> simp [ready]

omit [DecidableEq I] in
theorem length_failed (queue : List T) (left : T) (call : Call T) :
    (failed queue left call).length = queue.length := by
  cases call with
  | push value => rfl
  | emplace value => rfl
  | pop => cases queue <;> rfl

/-- **Mutual exclusion**, step by step. -/
theorem exclusive_step {ch : Choice I T} {e : Event T} (h : Exclusive capacity s)
    (hmoves : Moves capacity s t ch e s') : Exclusive capacity s' := by
  cases hmoves with
  | call call hp => exact h.goto (by rw [hp]; rfl) trivial
  | lock call hp hm => exact h.acquire hm rfl trivial
  | relock call hp hm => exact h.acquire hm rfl trivial
  | accept call slept hp hr => exact h.goto (by rw [hp]; rfl) hr
  | refuse call slept hp hr => exact h.goto (by rw [hp]; rfl) hr
  | sleep call hp => exact h.release (by rw [hp]; rfl) rfl trivial
  | insert call slept value hp hside =>
      have hroom := h.knows t
      rw [hp] at hroom
      have hlt := (ready_push_iff hside).mp hroom
      refine h.work (by rw [hp]; rfl) rfl trivial ?_
      rw [List.length_append, List.length_singleton]
      exact hlt
  | remove call slept value rest hp hside hq =>
      refine h.work (by rw [hp]; rfl) rfl trivial ?_
      have hbound := h.bounded
      rw [hq] at hbound
      exact Nat.le_of_succ_le hbound
  | crash call slept hp hside hq =>
      have hfull := h.knows t
      rw [hp] at hfull
      exact absurd hq ((ready_pop_iff hside).mp hfull)
  | unlock call result hp => exact h.release (by rw [hp]; rfl) rfl trivial
  | unwind call hp => exact h.release (by rw [hp]; rfl) rfl trivial
  | wakeUp call hp => exact h.goto (by rw [hp]; rfl) trivial
  | fail call slept left hp =>
      refine h.work (by rw [hp]; rfl) rfl trivial ?_
      rw [length_failed]
      exact h.bounded
  | notifyOne call call' result u hp hu hside =>
      -- the notifying thread is not the one it wakes
      have hne : t ≠ u := by
        rintro rfl
        rw [hp] at hu
        exact nomatch hu
      have hwoken : Exclusive capacity (s.goto u (.woken call')) :=
        h.goto (by rw [hu]; rfl) trivial
      refine hwoken.goto ?_ trivial
      show _ = (Function.update s.point u _ t).holds
      rw [Function.update_of_ne hne, hp]
      rfl
  | notifyNone call result hp hu => exact h.goto (by rw [hp]; rfl) trivial

end BoundedBlockingQueue
