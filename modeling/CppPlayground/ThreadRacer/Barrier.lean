import CppPlayground.Lib.Threads
import CppPlayground.ThreadRacer.Model

/-! # `thread_racer`: who is left asleep

    The count and the notification are not protected by the mutex, so the last thread can
    increment and notify while another is between its evaluation of the predicate and its
    going to sleep.  `run_barrier` is what holds of every run; `runs_strand_no_thread` adds
    the condition under which nobody is left asleep, and `sleepy_is_stranded` says that
    without it somebody is. -/

namespace ThreadRacer

open Transition Threads

variable {I : Type} [Fintype I] {s s' : State I} {t : I} {ch : Choice}

/-! ## What a step does -/

section Steps

variable [DecidableEq I]

/-- The steps, by what they change. -/
inductive Moves (s : State I) (t : I) : Choice → State I → Prop where
  | arrive : s.point t = .starting → Moves s t .next (s.arrive (Fintype.card I) t)
  | notifyAll : s.point t = .notifying → Moves s t .next (s.notifyAll t)
  | lock : s.point t = .locking ∨ s.point t = .woken →
      Moves s t .next { s.goto t .checking with mutex := some t }
  | checkTrue : s.point t = .checking → s.numThreadsReady = Fintype.card I →
      Moves s t .next (s.goto t .unlocking)
  | checkFalse : s.point t = .checking → s.numThreadsReady ≠ Fintype.card I →
      Moves s t .next (s.goto t .sleepy)
  | sleep : s.point t = .sleepy → Moves s t .next { s.goto t .asleep with mutex := none }
  | unlock : s.point t = .unlocking → Moves s t .next { s.goto t .racing with mutex := none }
  | wakeUp : s.point t = .asleep → Moves s t .wakeUp (s.goto t .woken)

theorem lock_moves (hp : s.point t = .locking ∨ s.point t = .woken)
    (hstep : s.lock t = some s') : Moves s t .next s' := by
  rw [State.lock] at hstep
  obtain ⟨-, hs'⟩ := Option.ite_none_right_eq_some.mp hstep
  obtain rfl := Option.some.inj hs'
  exact .lock hp

theorem step_moves (hstep : step (Fintype.card I) s t ch = some s') : Moves s t ch s' := by
  cases ch with
  | next =>
      cases hp : s.point t with
      | starting =>
          simp only [step, hp, Option.some.injEq] at hstep
          exact hstep ▸ .arrive hp
      | notifying =>
          simp only [step, hp, Option.some.injEq] at hstep
          exact hstep ▸ .notifyAll hp
      | locking =>
          simp only [step, hp] at hstep
          exact lock_moves (Or.inl hp) hstep
      | woken =>
          simp only [step, hp] at hstep
          exact lock_moves (Or.inr hp) hstep
      | checking =>
          simp only [step, hp] at hstep
          by_cases hready : s.numThreadsReady = Fintype.card I
          · rw [if_pos hready, Option.some.injEq] at hstep
            exact hstep ▸ .checkTrue hp hready
          · rw [if_neg hready, Option.some.injEq] at hstep
            exact hstep ▸ .checkFalse hp hready
      | sleepy =>
          simp only [step, hp, Option.some.injEq] at hstep
          exact hstep ▸ .sleep hp
      | unlocking =>
          simp only [step, hp, Option.some.injEq] at hstep
          exact hstep ▸ .unlock hp
      | asleep => simp only [step, hp, reduceCtorEq] at hstep
      | racing => simp only [step, hp, reduceCtorEq] at hstep
  | wakeUp =>
      cases hp : s.point t with
      | asleep =>
          simp only [step, hp, Option.some.injEq] at hstep
          exact hstep ▸ .wakeUp hp
      | _ => simp only [step, hp, reduceCtorEq] at hstep

end Steps

/-! ## The count -/

/-- The thread has counted itself. -/
def Point.arrived : Point → Bool
  | .starting => false
  | _ => true

/-- The invariant of every run: the count is that of the threads that have arrived, and
    exactly the thread that completes it is ready to go and notifies. -/
structure Barrier (s : State I) : Prop where
  count : s.numThreadsReady = number Point.arrived s.point
  early : s.numThreadsReady < Fintype.card I → s.readyToGo = []
  complete : s.numThreadsReady = Fintype.card I → ∃ t, s.readyToGo = [t]
  notifying : ∀ t, s.point t = .notifying → s.numThreadsReady = Fintype.card I
  notified : s.notified = true → s.numThreadsReady = Fintype.card I

/-- Before the last thread has arrived. -/
theorem Barrier.lt_of_starting (h : Barrier s) (hp : s.point t = .starting) :
    s.numThreadsReady < Fintype.card I := by
  rw [h.count]
  exact number_lt_card (t := t) (by rw [hp]; rfl)

theorem barrier_start (hpos : 0 < Fintype.card I) :
    Barrier (⟨0, none, fun _ => .starting, [], false⟩ : State I) where
  count := (number_eq_zero_iff.mpr fun _ => rfl).symm
  early _ := rfl
  complete h := absurd h (Nat.ne_of_lt hpos)
  notifying _ h := nomatch h
  notified h := nomatch h

variable [DecidableEq I]

/-- A step of a thread that has arrived and does not start to notify. -/
theorem Barrier.goto (h : Barrier s) (ht : (s.point t).arrived = true) (p : Point)
    (hp : p.arrived = true) (hne : p ≠ .notifying) (m : Option I) :
    Barrier { s.goto t p with mutex := m } where
  count := h.count.trans (number_update_same (ht.trans hp.symm)).symm
  early := h.early
  complete := h.complete
  notifying u hu := by
    change Function.update s.point t p u = _ at hu
    by_cases hut : u = t
    · rw [hut, Function.update_self] at hu
      exact absurd hu hne
    · rw [Function.update_of_ne hut] at hu
      exact h.notifying u hu
  notified := h.notified

theorem Barrier.arrive (h : Barrier s) (hcard : Fintype.card I < 2 ^ 64)
    (hp : s.point t = .starting) : Barrier (s.arrive (Fintype.card I) t) := by
  have hlt := h.lt_of_starting hp
  have hsum : (s.numThreadsReady + 1) % 2 ^ 64 = s.numThreadsReady + 1 :=
    Nat.mod_eq_of_lt (by omega)
  have hcount : ∀ p : Point, p.arrived = true →
      s.numThreadsReady + 1 = number Point.arrived (Function.update s.point t p) := by
    intro p harrived
    rw [h.count]
    exact (number_update_enter (by rw [hp]; rfl) harrived).symm
  -- before this step nobody was notifying, and nobody has been notified
  have hnotifying : ∀ u, s.point u ≠ .notifying := fun u hu =>
    Nat.ne_of_lt hlt (h.notifying u hu)
  have hnotified : s.notified ≠ true := fun hn => Nat.ne_of_lt hlt (h.notified hn)
  rw [State.arrive, hsum]
  by_cases hlast : s.numThreadsReady + 1 = Fintype.card I
  · rw [if_pos hlast]
    exact {
      count := hcount .notifying rfl
      early := fun hn => absurd hlast (Nat.ne_of_lt hn)
      complete := fun _ => ⟨t, by
        show s.readyToGo ++ [t] = [t]
        rw [h.early hlt, List.nil_append]⟩
      notifying := fun _ _ => hlast
      notified := fun _ => hlast }
  · rw [if_neg hlast]
    refine ⟨hcount .locking rfl, fun _ => h.early hlt, fun hn => absurd hn hlast, ?_, ?_⟩
    · intro u hu
      change Function.update s.point t .locking u = _ at hu
      by_cases hut : u = t
      · rw [hut, Function.update_self] at hu
        exact nomatch hu
      · rw [Function.update_of_ne hut] at hu
        exact absurd hu (hnotifying u)
    · exact fun hn => absurd hn hnotified

theorem Barrier.notifyAll (h : Barrier s) (hp : s.point t = .notifying) :
    Barrier (s.notifyAll t) := by
  have hcomplete := h.notifying t hp
  refine ⟨h.count.trans (number_congr ?_).symm, h.early, h.complete, fun _ _ => hcomplete,
    fun _ => hcomplete⟩
  intro u
  change (Function.update (fun u => (s.point u).notifiedAll) t Point.racing u).arrived = _
  by_cases hut : u = t
  · rw [hut, Function.update_self, hp]
    rfl
  · rw [Function.update_of_ne hut]
    cases s.point u <;> rfl

/-- **One step.** -/
theorem barrier_step (hcard : Fintype.card I < 2 ^ 64) (h : Barrier s)
    (hmoves : Moves s t ch s') : Barrier s' := by
  cases hmoves with
  | arrive hp => exact h.arrive hcard hp
  | notifyAll hp => exact h.notifyAll hp
  | lock hp =>
      have harrived : (s.point t).arrived = true := by
        rcases hp with hp | hp
        · rw [hp]; rfl
        · rw [hp]; rfl
      exact h.goto harrived .checking rfl (by decide) (some t)
  | checkTrue hp hready => exact h.goto (by rw [hp]; rfl) .unlocking rfl (by decide) s.mutex
  | checkFalse hp hready => exact h.goto (by rw [hp]; rfl) .sleepy rfl (by decide) s.mutex
  | sleep hp => exact h.goto (by rw [hp]; rfl) .asleep rfl (by decide) none
  | unlock hp => exact h.goto (by rw [hp]; rfl) .racing rfl (by decide) none
  | wakeUp hp => exact h.goto (by rw [hp]; rfl) .woken rfl (by decide) s.mutex

/-- Every run, whatever the order of the steps. -/
theorem run_barrier (hpos : 0 < Fintype.card I) (hcard : Fintype.card I < 2 ^ 64)
    {as : List (I × Choice)} (h : Run (racers I) as s) : Barrier s := by
  refine Run.invariant (I := fun _ s => Barrier s) ?_ ?_ h
  · rintro s rfl
    exact barrier_start hpos
  · intro as s a s' _ hbarrier hstep
    exact barrier_step hcard hbarrier (step_moves hstep)

/-! ## Who is asleep -/

/-- The condition on a step: nobody is about to go to sleep on an outdated predicate when
    `notify_all` is executed. -/
def NobodySleepy (s : State I) (a : I × Choice) : Prop :=
  s.point a.1 = .notifying → ∀ u, s.point u ≠ .sleepy

omit [DecidableEq I] in
instance (s : State I) (a : I × Choice) : Decidable (NobodySleepy s a) :=
  inferInstanceAs (Decidable (s.point a.1 = .notifying → ∀ u, s.point u ≠ .sleepy))

/-- The thread is asleep or about to be. -/
def Point.resting : Point → Bool
  | .sleepy | .asleep => true
  | _ => false

/-- After the notification nobody rests. -/
def Awake (s : State I) : Prop := s.notified = true → ∀ u, (s.point u).resting = false

omit [Fintype I] in
/-- A step that leads neither to sleep nor to the notification. -/
theorem Awake.goto (h : Awake s) (p : Point) (hp : p.resting = false)
    (hnotified : s'.notified = s.notified) (hpoint : s'.point = Function.update s.point t p) :
    Awake s' := by
  intro hn u
  rw [hnotified] at hn
  rw [hpoint]
  by_cases hut : u = t
  · rw [hut, Function.update_self]
    exact hp
  · rw [Function.update_of_ne hut]
    exact h hn u

/-- **One step** that meets the condition. -/
theorem awake_step (hbarrier : Barrier s) (h : Awake s) (hnobody : NobodySleepy s (t, ch))
    (hmoves : Moves s t ch s') : Awake s' := by
  cases hmoves with
  | arrive hp =>
      rw [State.arrive]
      split
      · exact h.goto .notifying rfl rfl rfl
      · exact h.goto .locking rfl rfl rfl
  | notifyAll hp =>
      intro _ u
      change (Function.update (fun u => (s.point u).notifiedAll) t Point.racing u).resting = _
      by_cases hut : u = t
      · rw [hut, Function.update_self]
        rfl
      · rw [Function.update_of_ne hut]
        have hsleepy := hnobody hp u
        cases hpu : s.point u with
        | sleepy => exact absurd hpu hsleepy
        | _ => rfl
  | lock hp => exact h.goto .checking rfl rfl rfl
  | checkTrue hp hready => exact h.goto .unlocking rfl rfl rfl
  | checkFalse hp hready =>
      -- the predicate has been true since the notification
      intro hn
      exact absurd (hbarrier.notified hn) hready
  | sleep hp =>
      intro hn
      have hrests := h hn t
      rw [hp] at hrests
      exact absurd hrests.symm Bool.false_ne_true
  | unlock hp => exact h.goto .racing rfl rfl rfl
  | wakeUp hp => exact h.goto .woken rfl rfl rfl

/-- What the barrier is for: one thread notifies, and nobody sleeps on after that. -/
structure StrandsNoThread (s : State I) : Prop where
  oneNotifies : s.numThreadsReady = Fintype.card I → ∃ t, s.readyToGo = [t]
  nobodyAsleep : ¬ (s.numThreadsReady = Fintype.card I ∧ s.notified = true
    ∧ ∃ t, s.point t = .asleep)

/-- **The barrier strands no thread** in the runs in which nobody is about to go to sleep
    when `notify_all` is executed. -/
theorem runs_strand_no_thread (htwo : 2 ≤ Fintype.card I) (hcard : Fintype.card I < 2 ^ 64)
    {as : List (I × Choice)} (h : Run ((racers I).restrict NobodySleepy) as s) :
    StrandsNoThread s := by
  have hpos : 0 < Fintype.card I := Nat.lt_of_lt_of_le Nat.two_pos htwo
  have hawake : Awake s := by
    refine Run.invariant (S := (racers I).restrict NobodySleepy) (I := fun _ s => Awake s)
      ?_ ?_ h
    · rintro s rfl hn
      exact nomatch hn
    · rintro as s a s' hrun hawake ⟨hstep, hnobody⟩
      exact awake_step (run_barrier hpos hcard hrun.of_restrict) hawake hnobody
        (step_moves hstep)
  refine ⟨(run_barrier hpos hcard h.of_restrict).complete, ?_⟩
  rintro ⟨-, hn, t, ht⟩
  have hrests := hawake hn t
  rw [ht] at hrests
  exact absurd hrests.symm Bool.false_ne_true

/-- **A thread that is about to sleep when the others are notified is stranded**: it is
    asleep after its next step. -/
theorem sleepy_is_stranded (hpos : 0 < Fintype.card I) (hcard : Fintype.card I < 2 ^ 64)
    {as : List (I × Choice)} (h : Run (racers I) as s) (ht : s.point t = .notifying) {u : I}
    (hu : s.point u = .sleepy) :
    ∃ s', Run (racers I) (as ++ [(t, .next)] ++ [(u, .next)]) s'
      ∧ s'.numThreadsReady = Fintype.card I ∧ s'.notified = true ∧ s'.point u = .asleep := by
  have hcomplete := (run_barrier hpos hcard h).notifying t ht
  have hne : u ≠ t := by
    rintro rfl
    rw [ht] at hu
    exact nomatch hu
  have hnotify : (racers I).step s (t, .next) (s.notifyAll t) := by
    show step _ s t .next = _
    simp only [step, ht]
  have hpoint : (s.notifyAll t).point u = .sleepy := by
    change Function.update (fun u => (s.point u).notifiedAll) t Point.racing u = _
    rw [Function.update_of_ne hne, hu]
    rfl
  have hsleep : (racers I).step (s.notifyAll t) (u, .next)
      { (s.notifyAll t).goto u .asleep with mutex := none } := by
    show step _ (s.notifyAll t) u .next = _
    simp only [step, hpoint]
  exact ⟨_, (h.snoc hnotify).snoc hsleep, hcomplete, rfl, Function.update_self _ _ _⟩

/-- The first thread is asleep when the second one arrives and notifies. -/
def sleepBeforeNotify : List (Bool × Choice) :=
  [(true, .next), (true, .next), (true, .next), (true, .next), (false, .next), (false, .next)]

theorem sleepBeforeNotify_strands_no_thread : ∃ s : State Bool,
    Run ((racers Bool).restrict NobodySleepy) sleepBeforeNotify s ∧ s.notified = true
      ∧ StrandsNoThread s := by
  obtain ⟨s, hfollow, hnotified⟩ : ∃ s, follow
      (fun s a => if NobodySleepy s a then step (Fintype.card Bool) s a.1 a.2 else none)
      (⟨0, none, fun _ => .starting, [], false⟩ : State Bool) sleepBeforeNotify = some s
        ∧ s.notified = true := ⟨_, rfl, rfl⟩
  have hrun : Run ((racers Bool).restrict NobodySleepy) sleepBeforeNotify s := by
    refine run_of_follow (S := (racers Bool).restrict NobodySleepy) ?_ rfl hfollow
    intro s a s' hnext
    obtain ⟨hnobody, hstep⟩ := Option.ite_none_right_eq_some.mp hnext
    exact ⟨hstep, hnobody⟩
  exact ⟨s, hrun, hnotified, runs_strand_no_thread (by decide) (by decide) hrun⟩

/-- The first thread has found the predicate false when the second one arrives and
    notifies; then it goes to sleep. -/
def notifyBeforeSleep : List (Bool × Choice) :=
  [(true, .next), (true, .next), (true, .next), (false, .next), (false, .next), (true, .next)]

/-- **The barrier can strand a thread**: the notification comes between the check and the
    sleep. -/
theorem notifyBeforeSleep_strands_thread :
    ¬ ∀ (as : List (Bool × Choice)) (s : State Bool), Run (racers Bool) as s →
      StrandsNoThread s := by
  intro hall
  obtain ⟨s, hfollow, hready, hnotified, hasleep⟩ : ∃ s,
      follow (fun s a => step (Fintype.card Bool) s a.1 a.2)
        (⟨0, none, fun _ => .starting, [], false⟩ : State Bool) notifyBeforeSleep = some s
        ∧ s.numThreadsReady = Fintype.card Bool ∧ s.notified = true
        ∧ s.point true = .asleep := ⟨_, rfl, rfl, rfl, rfl⟩
  have hrun := run_of_follow (S := racers Bool) (fun _ _ _ hnext => hnext) rfl hfollow
  exact (hall _ s hrun).nobodyAsleep ⟨hready, hnotified, true, hasleep⟩

end ThreadRacer
