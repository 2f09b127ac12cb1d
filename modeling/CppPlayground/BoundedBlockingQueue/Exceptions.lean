import CppPlayground.BoundedBlockingQueue.WakeUps

/-! # `BoundedBlockingQueue`: wake-ups and exceptions

    A woken thread whose element operation throws has used up a notification without
    using what is available, and leaves without notifying anybody.  `Guarded` is weaker
    than `Covered` and survives every throwing step that meets `LeavesGuard`;
    `throwing_thread_loses_wakeUp` is a run with one that does not. -/

namespace BoundedBlockingQueue

open Transition Threads

variable {I T : Type} {capacity : Nat} {s s' : State I T} {t : I} {d : Side}

/-- All sleepers are going to be notified, or what is available is spoken for. -/
def Guarded (c : Counters) : Prop :=
  c.asleep ≤ c.owed ∨ c.available ≤ c.awake + c.owed

theorem Changes.guarded {c c' : Counters} (h : Changes c c') (hc : Guarded c) : Guarded c' := by
  simp only [Guarded] at *
  cases h with
  | nothing h => rw [h]; exact hc
  | sleeps ha h => rw [h]; exact Or.inr (by show c.available ≤ _; omega)
  | givesUp ha h =>
      rw [h] at ha
      exact Or.inr (by rw [show c'.available = 0 from ha]; exact Nat.zero_le _)
  | wakesUp hs hw ho ha => omega
  | takes hs hw ho ha => omega
  | offers hs hw ho ha => omega
  | notifiesOne hs hw ho ha => omega
  | notifiesNone hs hw ho ha => omega

variable [Fintype I] [DecidableEq I]

/-- A wake-up is not lost: while a thread sleeps although its predicate holds, some
    thread woken on its side has still to recheck and act, or some thread has still to
    notify its side. -/
def NoLostWakeUp (capacity : Nat) (s : State I T) : Prop :=
  ∀ d, (∃ t, (s.point t).asleepOn d = true) → ready capacity s.mQueue d = true →
    (∃ t, (s.point t).wakingOn d = true) ∨ ∃ t, (s.point t).owesTo d = true

/-- The condition on a step whose element operation throws: the thread has not been
    asleep in this call, or the notifications owed to its side reach all threads asleep
    there, or what is available on its side is at most the other woken threads and the
    notifications owed. -/
def LeavesGuard (capacity : Nat) (s : State I T) (a : Label I T) : Prop :=
  ∀ left call, a.2.1 = .fail left → s.point a.1 = .operating call true →
    number (Point.asleepOn call.side) s.point ≤ number (Point.owesTo call.side) s.point
      ∨ available capacity s.mQueue call.side + 1
        ≤ number (Point.wakingOn call.side) s.point + number (Point.owesTo call.side) s.point

omit [DecidableEq I] in
theorem Guarded.noLostWakeUp (h : ∀ d, Guarded (counters capacity s d)) :
    NoLostWakeUp capacity s := by
  intro d hasleep hready
  have hs : 0 < (counters capacity s d).asleep := number_pos_iff.mpr hasleep
  have ha : 0 < (counters capacity s d).available := ready_iff_available.mp hready
  by_cases hawake : 0 < (counters capacity s d).awake
  · exact Or.inl (number_pos_iff.mp hawake)
  · refine Or.inr (number_pos_iff.mp (show 0 < (counters capacity s d).owed from ?_))
    -- nobody is awake, so either disjunct of the guard leaves a notification owed
    rcases h d with hle | hle <;> omega

/-- A step that throws under the condition. -/
theorem guarded_fail {call : Call T} {slept : Bool} {left : T} {e : Event T}
    (hgoes : Goes s s' t (.operating call slept) (.unwinding call))
    (hguard : LeavesGuard capacity s (t, .fail left, e)) (h : Guarded (counters capacity s d)) :
    Guarded (counters capacity s' d) := by
  cases hw : (Point.operating call slept).wakingOn d with
  | false =>
      rw [counters_same hgoes rfl hw.symm rfl]
      exact h
  | true =>
      -- the thread stops counting as woken, nothing else changes
      simp only [Point.wakingOn, Bool.and_eq_true, decide_eq_true_iff] at hw
      obtain ⟨rfl, rfl⟩ := hw
      obtain ⟨hsleep, hwake, howe, havail⟩ :=
        counters_goes capacity hgoes call.side
      simp only [Point.wakingOn, Bool.true_and, decide_true, Bool.toNat_true,
        Bool.toNat_false] at hwake
      simp only [Point.asleepOn, Point.owesTo] at hsleep howe
      have hcond : (counters capacity s call.side).asleep ≤ (counters capacity s call.side).owed
          ∨ (counters capacity s call.side).available + 1
            ≤ (counters capacity s call.side).awake + (counters capacity s call.side).owed :=
        hguard left call rfl hgoes.before
      rw [Guarded]
      omega

/-- The guard survives every run whose throwing steps meet the condition. -/
theorem run_guarded {tr : List (Label I T)}
    (h : Run ((queues I T capacity).restrict (LeavesGuard capacity)) tr s) (d : Side) :
    Guarded (counters capacity s d) := by
  refine Run.invariant (S := (queues I T capacity).restrict (LeavesGuard capacity))
    (I := fun _ s => Guarded (counters capacity s d)) ?_ ?_ h
  · rintro s rfl
    exact Or.inl (by rw [counters_start]; exact Nat.zero_le _)
  · rintro as s ⟨t, ch, e⟩ s' hrun hI ⟨hstep, hguard⟩
    have hmoves := step_moves hstep
    by_cases hfail : ∃ left, ch = .fail left
    · obtain ⟨left, rfl⟩ := hfail
      cases hmoves with
      | fail call slept left hp =>
          exact guarded_fail ⟨hp, rfl, length_failed _ _ _⟩ hguard hI
    · exact (moves_changes hmoves (run_exclusive hrun)
        (fun left heq => hfail ⟨left, heq⟩) d).guarded hI

/-- **No wake-up is lost to an exception, under the condition.**  In every run whose
    throwing steps all meet `LeavesGuard`, no state reached has lost a wake-up. -/
theorem runs_lose_no_wakeUp_of_leavesGuard {tr : List (Label I T)}
    (h : Run ((queues I T capacity).restrict (LeavesGuard capacity)) tr s) :
    NoLostWakeUp capacity s :=
  Guarded.noLostWakeUp (run_guarded h)

/-- A step without an exception, or with one in a thread that has not been asleep. -/
def harmlessStep (s : State I T) (a : Label I T) : Bool :=
  match a.2.1, s.point a.1 with
  | .fail _, .operating _ slept => !slept
  | _, _ => true

omit [DecidableEq I] in
theorem leavesGuard_of_harmlessStep (s : State I T) (a : Label I T)
    (h : harmlessStep s a = true) : LeavesGuard capacity s a := by
  intro left call hfail hp
  rw [harmlessStep] at h
  rw [hfail, hp] at h
  exact nomatch h

/-- A pusher throws while a popper is asleep. -/
def throwWhileAsleep : List (Bool × Choice Bool Nat) :=
  [(false, .call .pop), (false, .next), (false, .next), (false, .next),
    (true, .call (.emplace 7)), (true, .next), (true, .next), (true, .fail 0), (true, .next)]

theorem throwWhileAsleep_loses_no_wakeUp : ∃ tr s,
    Run ((queues Bool Nat 1).restrict (LeavesGuard 1)) tr s ∧ NoLostWakeUp 1 s := by
  obtain ⟨tr, s, hexec⟩ : ∃ tr s,
      execute 1 harmlessStep (start : State Bool Nat) throwWhileAsleep = some (tr, s) :=
    ⟨_, _, rfl⟩
  have hrun := run_execute (C := LeavesGuard 1) hexec leavesGuard_of_harmlessStep
  exact ⟨tr, s, hrun, runs_lose_no_wakeUp_of_leavesGuard hrun⟩

/-- Two pushers go to sleep at a full queue; the one that is woken throws. -/
def throwAfterWakeUp : List (Fin 3 × Choice (Fin 3) Nat) :=
  [(0, .call (.push 5)), (0, .next), (0, .next), (0, .next), (0, .next), (0, .notify none),
    (1, .call (.emplace 6)), (1, .next), (1, .next), (1, .next),
    (2, .call (.emplace 7)), (2, .next), (2, .next), (2, .next),
    (0, .call .pop), (0, .next), (0, .next), (0, .next), (0, .next), (0, .notify (some 1)),
    (1, .next), (1, .next), (1, .fail 0), (1, .next)]

/-- **A woken thread that throws loses its wake-up**: the queue is empty, one pusher is
    asleep, and every other thread is idle. -/
theorem throwing_thread_loses_wakeUp :
    ¬ ∀ (tr : List (Label (Fin 3) Nat)) (s : State (Fin 3) Nat),
      Run (queues (Fin 3) Nat 1) tr s → NoLostWakeUp 1 s := by
  intro hall
  obtain ⟨tr, s, hexec, hasleep, hready, hnone⟩ : ∃ tr s,
      execute 1 (fun _ _ => true) (start : State (Fin 3) Nat) throwAfterWakeUp = some (tr, s)
        ∧ (s.point 2).asleepOn .push = true ∧ ready 1 s.mQueue .push = true
        ∧ ∀ t, (s.point t).wakingOn .push = false ∧ (s.point t).owesTo .push = false :=
    ⟨_, _, rfl, rfl, rfl, by decide⟩
  have hrun := run_execute (C := fun _ _ => True) hexec fun _ _ _ => trivial
  rcases hall tr s hrun.of_restrict .push ⟨2, hasleep⟩ hready with ⟨t, ht⟩ | ⟨t, ht⟩
  · rw [(hnone t).1] at ht
    exact nomatch ht
  · rw [(hnone t).2] at ht
    exact nomatch ht

end BoundedBlockingQueue
