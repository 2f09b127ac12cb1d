import Mathlib.Data.List.Sort
import Mathlib.Data.Prod.Lex
import CppPlayground.Lib.Progress
import CppPlayground.ThreadRacer.Start

/-! # `thread_racer`: does it end?

    Apart from spurious wake-ups every step lowers a rank: threads approach the finish,
    `main` approaches its end, and the notification comes once.  So the program runs on
    for ever only if threads wake up spuriously for ever (`executions_wake_up`), and
    from a given state it can finish without spurious wake-ups exactly if no thread rests
    after the notification and no creation has failed (`can_finish_iff`). -/

namespace ThreadRacer

open Transition Threads

/-! ## The rank -/

/-- How far a thread is from the race. -/
def Point.weight : Point → Nat
  | .starting => 5
  | .locking | .woken => 4
  | .checking => 3
  | .sleepy => 2
  | .notifying | .asleep | .unlocking => 1
  | .racing => 0

/-- How far a thread is from the finish. -/
def Lane.weight : Lane → Nat
  | .waiting => goal + 2
  | .counting _ counter => goal - counter + 1
  | .finished _ => 0

/-- How far `main` is from its end. -/
def Main.weight (n : Nat) : Main → Nat
  | .creating i => n + 4 + (n - i)
  | .collecting results => n + 3 - results.length
  | .joining _ => 2
  | .unwinding _ => 1
  | .finished _ | .terminated _ => 0

section Rank

variable {n : Nat} {s s' : Race n} {a : Action n} {as : List (Action n)}

/-- How far everybody is from the end. -/
def Race.distance (s : Race n) : Nat :=
  total Point.weight s.barrier.point + total Lane.weight s.lane + s.main.weight n

/-- The notification, which sends threads back, comes first. -/
def Race.rank (s : Race n) : Nat ×ₗ Nat :=
  toLex ((!s.barrier.notified).toNat, s.distance)

/-- Not a spurious wake-up. -/
def Action.Regular : Action n → Prop
  | .sync _ .wakeUp => False
  | _ => True

theorem rank_lt_of_distance (hnotified : s'.barrier.notified = s.barrier.notified)
    (h : s'.distance < s.distance) : s'.rank < s.rank := by
  refine Prod.Lex.toLex_lt_toLex.mpr (Or.inr ⟨?_, h⟩)
  show (!s'.barrier.notified).toNat = _
  rw [hnotified]

/-- A step of a thread in the race. -/
theorem rank_move {t : Fin n} {l : Lane} (h : l.weight < (s.lane t).weight) :
    (s.move t l).rank < s.rank := by
  have hlane : total Lane.weight (Function.update s.lane t l) < total Lane.weight s.lane :=
    total_update_lt h
  refine rank_lt_of_distance rfl ?_
  show total Point.weight s.barrier.point + total Lane.weight (Function.update s.lane t l)
    + s.main.weight n < total Point.weight s.barrier.point + total Lane.weight s.lane
    + s.main.weight n
  omega

/-- A step of `main`. -/
theorem rank_main {m : Main} (h : m.weight n < s.main.weight n) :
    Race.rank { s with main := m } < s.rank :=
  rank_lt_of_distance rfl (Nat.add_lt_add_left h _)

/-- A step of a thread before the race. -/
theorem rank_barrier {b : State (Fin n)} {t : Fin n} {p : Point}
    (hnotified : b.notified = s.barrier.notified)
    (hpoint : b.point = Function.update s.barrier.point t p)
    (h : p.weight < (s.barrier.point t).weight) :
    Race.rank { s with barrier := b } < s.rank := by
  have hpoints : total Point.weight (Function.update s.barrier.point t p)
      < total Point.weight s.barrier.point := total_update_lt h
  refine rank_lt_of_distance hnotified ?_
  show total Point.weight b.point + total Lane.weight s.lane + s.main.weight n
    < total Point.weight s.barrier.point + total Lane.weight s.lane + s.main.weight n
  rw [hpoint]
  omega

/-- **One step** before the race. -/
theorem rank_sync (hgate : Gate s.barrier) {t : Fin n} {ch : Choice} {b : State (Fin n)}
    (hmoves : Moves s.barrier t ch b) (hch : ch ≠ .wakeUp) :
    Race.rank { s with barrier := b } < s.rank := by
  cases hmoves with
  | arrive hp =>
      rw [State.arrive]
      split
      · exact rank_barrier rfl rfl (by rw [hp]; decide)
      · exact rank_barrier rfl rfl (by rw [hp]; decide)
  | notifyAll hp =>
      have hnotified : s.barrier.notified = false := by
        by_contra hn
        exact hgate.once (Bool.eq_true_of_not_eq_false hn) t hp
      refine Prod.Lex.toLex_lt_toLex.mpr (Or.inl ?_)
      show 0 < (!s.barrier.notified).toNat
      rw [hnotified]
      exact Nat.one_pos
  | lock hp =>
      refine rank_barrier rfl rfl ?_
      rcases hp with hp | hp
      · rw [hp]; decide
      · rw [hp]; decide
  | checkTrue hp hready => exact rank_barrier rfl rfl (by rw [hp]; decide)
  | checkFalse hp hready => exact rank_barrier rfl rfl (by rw [hp]; decide)
  | sleep hp => exact rank_barrier rfl rfl (by rw [hp]; decide)
  | unlock hp => exact rank_barrier rfl rfl (by rw [hp]; decide)
  | wakeUp hp => exact absurd rfl hch

/-- **One step** of the program. -/
theorem rank_lt (hgate : Gate s.barrier) (hstarted : Started as s) (hmoves : s.Moves a s')
    (ha : a.Regular) : s'.rank < s.rank := by
  have hfits := hstarted.fits
  cases hmoves with
  | @create i hmain =>
      rw [hmain] at hfits
      have hfits : i < n := hfits
      refine rank_main ?_
      rw [hmain]
      by_cases hlast : i + 1 < n
      · rw [if_pos hlast]
        show n + 4 + (n - (i + 1)) < n + 4 + (n - i)
        omega
      · rw [if_neg hlast]
        show n + 3 - 0 < n + 4 + (n - i)
        omega
  | @createFails i unwinds hmain =>
      refine rank_main ?_
      rw [hmain]
      cases unwinds with
      | true =>
          show 1 < n + 4 + (n - i)
          omega
      | false =>
          show 0 < n + 4 + (n - i)
          omega
  | @sync t ch b hruns hb =>
      refine rank_sync hgate (step_moves (by rw [Fintype.card_fin]; exact hb)) ?_
      rintro rfl
      exact ha
  | start now hruns hlane hpoint =>
      refine rank_move ?_
      rw [hlane]
      exact Nat.lt_succ_self (goal + 1)
  | @count t start counter hruns hlane hlt =>
      refine rank_move ?_
      rw [hlane]
      show goal - (counter + 1) + 1 < goal - counter + 1
      omega
  | stop now hruns hlane hlt =>
      refine rank_move ?_
      rw [hlane]
      exact Nat.succ_pos _
  | @collect results result hlen hmain hlane =>
      refine rank_main ?_
      rw [hmain]
      show n + 3 - (results ++ [result]).length < n + 3 - results.length
      rw [List.length_append, List.length_singleton]
      omega
  | @print results sorted lines hmain hlen hperm hsorted hlines =>
      refine rank_main ?_
      rw [hmain]
      show 2 < n + 3 - results.length
      omega
  | join hmain hall =>
      refine rank_main ?_
      rw [hmain]
      exact Nat.two_pos
  | unwind hmain hall =>
      refine rank_main ?_
      rw [hmain]
      exact Nat.one_pos

end Rank

/-- **The program runs for ever only on spurious wake-ups**: there is no last one. -/
theorem executions_wake_up {n : NumThreads} (e : Execution (races n)) (k : Nat) :
    ∃ i, k ≤ i ∧ ∃ t, e.label i = .sync t .wakeUp := by
  have hlowers : ∀ as s (a : Action n.val) s', Run (races n) as s → a.Regular →
      (races n).step s a s' → s'.rank < s.rank := fun _ _ _ _ hrun ha hstep =>
    rank_lt (race_gate hrun) (run_started hrun) (race_moves hstep) ha
  obtain ⟨i, hki, hi⟩ := e.leaves Race.rank hlowers k
  refine ⟨i, hki, ?_⟩
  cases hlabel : e.label i with
  | sync t ch =>
      cases ch with
      | wakeUp => exact ⟨t, rfl⟩
      | next =>
          rw [hlabel] at hi
          exact absurd trivial hi
  | _ =>
      rw [hlabel] at hi
      exact absurd trivial hi

section Waiting

variable {I : Type} [DecidableEq I] {t : I} {s : State I} {numThreads : Nat}

/-- The first thread waits for the others, outside the mutex or inside. -/
inductive WaitsAlone (t : I) (s : State I) : Prop where
  | starting : s.numThreadsReady = 0 → s.mutex = none → s.point t = .starting → WaitsAlone t s
  | outside : s.numThreadsReady = 1 → s.mutex = none →
      (s.point t = .locking ∨ s.point t = .asleep ∨ s.point t = .woken) → WaitsAlone t s
  | inside : s.numThreadsReady = 1 → s.mutex = some t →
      (s.point t = .checking ∨ s.point t = .sleepy) → WaitsAlone t s

/-- It has a step, and waits on. -/
theorem WaitsAlone.next (h : WaitsAlone t s) (hmore : 1 < numThreads) :
    ∃ ch s', step numThreads s t ch = some s' ∧ WaitsAlone t s' := by
  have hpoint : ∀ p, Function.update s.point t p t = p := fun _ => Function.update_self _ _ _
  cases h with
  | starting hready hfree hp =>
      refine ⟨.next, { s.goto t .locking with numThreadsReady := 1 }, ?_,
        .outside rfl hfree (Or.inl (hpoint _))⟩
      have hnot : ¬ (0 + 1) % 2 ^ 64 = numThreads := by omega
      simp only [step, hp, State.arrive, hready, if_neg hnot]
      rfl
  | outside hready hfree hp =>
      rcases hp with hp | hp | hp
      · refine ⟨.next, { s.goto t .checking with mutex := some t }, ?_,
          .inside hready rfl (Or.inl (hpoint _))⟩
        simp only [step, hp, State.lock, hfree, if_true]
      · refine ⟨.wakeUp, s.goto t .woken, ?_,
          .outside hready hfree (Or.inr (Or.inr (hpoint _)))⟩
        simp only [step, hp]
      · refine ⟨.next, { s.goto t .checking with mutex := some t }, ?_,
          .inside hready rfl (Or.inl (hpoint _))⟩
        simp only [step, hp, State.lock, hfree, if_true]
  | inside hready howner hp =>
      rcases hp with hp | hp
      · refine ⟨.next, s.goto t .sleepy, ?_, .inside hready howner (Or.inr (hpoint _))⟩
        have hnot : ¬ s.numThreadsReady = numThreads := by omega
        simp only [step, hp, if_neg hnot]
      · refine ⟨.next, { s.goto t .asleep with mutex := none }, ?_,
          .outside hready rfl (Or.inr (Or.inl (hpoint _)))⟩
        simp only [step, hp]

end Waiting

/-- There are executions, of two threads or more: as long as `main` creates no second thread,
    the first one can wake up, in vain. -/
theorem exists_waitsAlone {n : NumThreads} (hmore : 1 < n.val) :
    ∃ e : Execution (races n), ∀ i, WaitsAlone ⟨0, n.pos⟩ (e.state i).barrier := by
  suffices hwithin : ∃ e : Execution (races n), ∀ i, ((e.state i) = Race.begin n.val
      ∨ (e.state i).main = .creating 1) ∧ WaitsAlone ⟨0, n.pos⟩ (e.state i).barrier by
    obtain ⟨e, he⟩ := hwithin
    exact ⟨e, fun i => (he i).2⟩
  refine exists_execution_within (S := races n) (P := fun s => (s = Race.begin n.val
    ∨ s.main = .creating 1) ∧ WaitsAlone ⟨0, n.pos⟩ s.barrier) rfl
    ⟨Or.inl rfl, .starting rfl rfl rfl⟩ ?_
  rintro s ⟨rfl | hmain, hwaits⟩
  · refine ⟨.create, { Race.begin n.val with main := .creating 1 }, ?_, Or.inr rfl, hwaits⟩
    exact congrArg (fun m => some { Race.begin n.val with main := m }) (if_pos hmore)
  · obtain ⟨ch, barrier, hstep, hwaits'⟩ := hwaits.next hmore
    refine ⟨.sync ⟨0, n.pos⟩ ch, { s with barrier := barrier }, ?_, Or.inr hmain, hwaits'⟩
    have hruns : s.Runs ⟨0, n.pos⟩ := by
      rw [Race.Runs, hmain]
      exact ⟨Nat.zero_lt_one, rfl⟩
    show (if s.Runs _ then _ else none) = _
    rw [if_pos hruns, hstep]
    rfl

/-! ## The way to the end -/

section Barrier

variable {I : Type} [Fintype I] [DecidableEq I] {s : State I}

omit [Fintype I] [DecidableEq I] in
theorem nobodySleepy_of_point {t : I} {p : Point} (ht : s.point t = p) (hp : p ≠ .notifying) :
    NobodySleepy s (t, .next) := fun hn => absurd (ht.symm.trans hn) hp

/-- After the notification, when nobody rests, the owner of the mutex can go on, or a
    thread acquires it. -/
theorem progress_notified (hgate : Gate s) (hfull : s.numThreadsReady = Fintype.card I)
    (hnotified : s.notified = true) (hstarting : ∀ t, s.point t ≠ .starting)
    (hrests : ∀ t, (s.point t).resting = false) :
    (∀ t, s.point t = .racing)
      ∨ ∃ t s', step (Fintype.card I) s t .next = some s' ∧ NobodySleepy s (t, .next) := by
  by_cases hlock : s.mutex = none ∧ ∃ t, s.point t = .locking ∨ s.point t = .woken
  · obtain ⟨hmutex, t, ht⟩ := hlock
    refine Or.inr ⟨t, { s.goto t .checking with mutex := some t }, ?_⟩
    rcases ht with ht | ht
    · exact ⟨by simp only [step, ht, State.lock, if_pos hmutex],
        nobodySleepy_of_point ht (by decide)⟩
    · exact ⟨by simp only [step, ht, State.lock, if_pos hmutex],
        nobodySleepy_of_point ht (by decide)⟩
  by_cases hinside : ∃ t, s.point t = .checking ∨ s.point t = .unlocking
  · obtain ⟨t, ht | ht⟩ := hinside
    · exact Or.inr ⟨t, s.goto t .unlocking, by simp only [step, ht, if_pos hfull],
        nobodySleepy_of_point ht (by decide)⟩
    · exact Or.inr ⟨t, { s.goto t .racing with mutex := none }, by simp only [step, ht],
        nobodySleepy_of_point ht (by decide)⟩
  -- nobody is inside the critical section, so the mutex is free and nobody waits for it
  have hmutex : s.mutex = none := by
    cases hmutex : s.mutex with
    | none => rfl
    | some t =>
        have hheld := hgate.held t hmutex
        have hrest := hrests t
        cases ht : s.point t with
        | checking => exact absurd ⟨t, Or.inl ht⟩ hinside
        | unlocking => exact absurd ⟨t, Or.inr ht⟩ hinside
        | sleepy =>
            rw [ht] at hrest
            exact absurd hrest.symm Bool.false_ne_true
        | _ =>
            rw [ht] at hheld
            exact absurd hheld Bool.false_ne_true
  refine Or.inl fun t => ?_
  have hrest := hrests t
  cases ht : s.point t with
  | racing => rfl
  | starting => exact absurd ht (hstarting t)
  | notifying => exact absurd ht (hgate.once hnotified t)
  | locking => exact absurd ⟨hmutex, t, Or.inl ht⟩ hlock
  | woken => exact absurd ⟨hmutex, t, Or.inr ht⟩ hlock
  | checking => exact absurd ⟨t, Or.inl ht⟩ hinside
  | unlocking => exact absurd ⟨t, Or.inr ht⟩ hinside
  | sleepy | asleep =>
      rw [ht] at hrest
      exact absurd hrest.symm Bool.false_ne_true

/-- While somebody is not in the race yet, and nobody rests after the notification,
    somebody can take a step that strands nobody. -/
theorem barrier_progress (hbarrier : Barrier s) (hgate : Gate s) (hawake : Awake s) :
    (∀ t, s.point t = .racing)
      ∨ ∃ t s', step (Fintype.card I) s t .next = some s' ∧ NobodySleepy s (t, .next) := by
  by_cases hstarting : ∃ t, s.point t = .starting
  · obtain ⟨t, ht⟩ := hstarting
    exact Or.inr ⟨t, s.arrive (Fintype.card I) t, by simp only [step, ht],
      nobodySleepy_of_point ht (by decide)⟩
  by_cases hsleepy : ∃ t, s.point t = .sleepy
  · obtain ⟨t, ht⟩ := hsleepy
    exact Or.inr ⟨t, { s.goto t .asleep with mutex := none }, by simp only [step, ht],
      nobodySleepy_of_point ht (by decide)⟩
  have hfull : s.numThreadsReady = Fintype.card I := by
    rw [hbarrier.count, number_eq_card, Finset.filter_true_of_mem, Finset.card_univ]
    intro t _
    cases ht : s.point t with
    | starting => exact absurd ⟨t, ht⟩ hstarting
    | _ => rfl
  rcases hgate.told hfull with hnotified | ⟨t, ht⟩
  · exact progress_notified hgate hfull hnotified (fun t ht => hstarting ⟨t, ht⟩)
      (hawake hnotified)
  · exact Or.inr ⟨t, s.notifyAll t, by simp only [step, ht], fun _ u hu => hsleepy ⟨u, hu⟩⟩

/-- Without a spurious wake-up, who rests after the notification goes on resting. -/
theorem Moves.strands (hgate : Gate s) {s' : State I} {t u : I} {ch : Choice}
    (h : Moves s t ch s') (hch : ch ≠ .wakeUp) (hnotified : s.notified = true)
    (hu : (s.point u).resting = true) :
    s'.notified = true ∧ (s'.point u).resting = true := by
  have hne : ∀ {p : Point}, s.point t = p → p.resting = false → u ≠ t := by
    rintro p hp hrest rfl
    rw [hp, hrest] at hu
    exact Bool.false_ne_true hu
  have hkeep : ∀ p, u ≠ t → (Function.update s.point t p u).resting = true := by
    intro p hut
    rwa [Function.update_of_ne hut]
  cases h with
  | notifyAll hp => exact absurd hp (hgate.once hnotified t)
  | wakeUp hp => exact absurd rfl hch
  | arrive hp =>
      rw [State.arrive]
      split
      · exact ⟨hnotified, hkeep .notifying (hne hp rfl)⟩
      · exact ⟨hnotified, hkeep .locking (hne hp rfl)⟩
  | lock hp =>
      rcases hp with hp | hp
      · exact ⟨hnotified, hkeep .checking (hne hp rfl)⟩
      · exact ⟨hnotified, hkeep .checking (hne hp rfl)⟩
  | checkTrue hp hready => exact ⟨hnotified, hkeep .unlocking (hne hp rfl)⟩
  | checkFalse hp hready => exact ⟨hnotified, hkeep .sleepy (hne hp rfl)⟩
  | unlock hp => exact ⟨hnotified, hkeep .racing (hne hp rfl)⟩
  | sleep hp =>
      refine ⟨hnotified, ?_⟩
      show (Function.update s.point t Point.asleep u).resting = true
      by_cases hut : u = t
      · rw [hut, Function.update_self]
        rfl
      · exact hkeep .asleep hut

omit [Fintype I] [DecidableEq I] in
theorem not_awake_iff : ¬ Awake s ↔ s.notified = true ∧ ∃ t, (s.point t).resting = true := by
  rw [Awake, Classical.not_imp, not_forall]
  simp only [Bool.not_eq_false]

end Barrier

/-- A creation has failed. -/
def Main.failed : Main → Bool
  | .unwinding _ | .terminated _ => true
  | _ => false

section Progress

variable {n : NumThreads} {s : Race n.val} {as : List (Action n.val)}

/-- The steps of threads, once they all exist: until all have finished, one of them can
    take a step that strands nobody. -/
theorem thread_progress (h : Run (races n) as s) (hawake : Awake s.barrier)
    (hall : s.main.created n.val = n.val) (halive : s.main.alive = true) :
    (∀ t, (s.lane t).isFinished = true)
      ∨ ∃ a s', a.Regular ∧ s.Moves a s' ∧ Awake s'.barrier ∧ s'.main = s.main := by
  have hruns : ∀ t, s.Runs t := fun t => ⟨hall.symm ▸ t.isLt, halive⟩
  rcases barrier_progress (race_barrier h) (race_gate h) hawake with hracing | ⟨t, b, hb, hnobody⟩
  · by_cases hfinished : ∀ t, (s.lane t).isFinished = true
    · exact Or.inl hfinished
    obtain ⟨t, ht⟩ := not_forall.mp hfinished
    cases hlane : s.lane t with
    | waiting =>
        exact Or.inr ⟨.start t 0, _, trivial, .start 0 (hruns t) hlane (hracing t), hawake, rfl⟩
    | counting start counter =>
        by_cases hlt : counter < goal
        · exact Or.inr ⟨.count t, _, trivial, .count (hruns t) hlane hlt, hawake, rfl⟩
        · exact Or.inr ⟨.stop t 0, _, trivial, .stop 0 (hruns t) hlane hlt, hawake, rfl⟩
    | finished result =>
        rw [hlane] at ht
        exact absurd rfl ht
  · have hawake' := awake_step (race_barrier h) hawake hnobody (step_moves hb)
    rw [Fintype.card_fin] at hb
    exact Or.inr ⟨.sync t .next, _, trivial, .sync (hruns t) hb, hawake', rfl⟩

theorem output_ne_none {sorted : List Result} (hne : sorted ≠ []) :
    ∃ lines, output sorted = some lines := by
  cases sorted with
  | nil => exact absurd rfl hne
  | cons r rs => exact ⟨_, rfl⟩

/-- **Progress**: while nobody rests after the notification and no creation has failed,
    the program has finished or can take a step that keeps it so. -/
theorem progress (h : Run (races n) as s) (hawake : Awake s.barrier)
    (hfailed : s.main.failed = false) :
    (∃ lines, s.main = .finished lines)
      ∨ ∃ a s', a.Regular ∧ s.Moves a s' ∧ Awake s'.barrier ∧ s'.main.failed = false := by
  cases hmain : s.main with
  | unwinding i | terminated i =>
      rw [hmain] at hfailed
      exact absurd hfailed.symm Bool.false_ne_true
  | finished lines => exact Or.inl ⟨lines, rfl⟩
  | creating i =>
      refine Or.inr ⟨.create, _, trivial, .create hmain, hawake, ?_⟩
      by_cases hlast : i + 1 < n.val
      · rw [if_pos hlast]
        rfl
      · rw [if_neg hlast]
        rfl
  | joining lines =>
      rcases thread_progress h hawake (by rw [hmain]; rfl) (by rw [hmain]; rfl) with
        hall | ⟨a, s', ha, hmoves, hawake', hsame⟩
      · exact Or.inr ⟨.join, _, trivial, .join hmain hall, hawake, rfl⟩
      · exact Or.inr ⟨a, s', ha, hmoves, hawake', by rw [hsame, hmain]; rfl⟩
  | collecting results =>
      rcases thread_progress h hawake (by rw [hmain]; rfl) (by rw [hmain]; rfl) with
        hall | ⟨a, s', ha, hmoves, hawake', hsame⟩
      · by_cases hlen : results.length < n.val
        · have hfinished := hall ⟨results.length, hlen⟩
          cases hlane : s.lane ⟨results.length, hlen⟩ with
          | finished result =>
              exact Or.inr ⟨.collect, _, trivial, .collect hlen hmain hlane, hawake, rfl⟩
          | _ =>
              rw [hlane] at hfinished
              exact absurd hfinished Bool.false_ne_true
        · have hfits : results.length ≤ n.val := by
            have := (run_started h).fits
            rwa [hmain] at this
          have hcomplete : results.length = n.val :=
            Nat.le_antisymm hfits (Nat.le_of_not_lt hlen)
          have hperm := List.perm_insertionSort (fun r q : Result => r.time ≤ q.time) results
          have hne : results.insertionSort (fun r q : Result => r.time ≤ q.time) ≠ [] := by
            intro hnil
            rw [hnil, List.nil_perm] at hperm
            rw [hperm] at hcomplete
            exact Nat.ne_of_lt n.pos hcomplete
          obtain ⟨lines, hlines⟩ := output_ne_none hne
          exact Or.inr ⟨.print _, _, trivial, .print hmain hcomplete hperm
            (List.pairwise_insertionSort _ _) hlines, hawake, rfl⟩
      · exact Or.inr ⟨a, s', ha, hmoves, hawake', by rw [hsame, hmain]; rfl⟩

/-- The program can finish from here, with no thread waking up for no reason. -/
def Race.CanFinish (n : NumThreads) (s : Race n.val) : Prop :=
  ∃ as s', Path (races n) s as s' ∧ (∀ a ∈ as, a.Regular) ∧ ∃ lines, s'.main = .finished lines

theorem finishes (h : Run (races n) as s) (hawake : Awake s.barrier)
    (hfailed : s.main.failed = false) : Race.CanFinish n s := by
  refine leads_to (P := fun s => (∃ as, Run (races n) as s) ∧ Awake s.barrier
    ∧ s.main.failed = false) Race.rank ?_ ⟨⟨as, h⟩, hawake, hfailed⟩
  rintro s ⟨⟨as, hrun⟩, hawake, hfailed⟩
  rcases progress hrun hawake hfailed with hfinished | ⟨a, s', ha, hmoves, hawake', hfailed'⟩
  · exact Or.inl hfinished
  · exact Or.inr ⟨a, s', ha, hmoves.step, ⟨⟨_, hrun.snoc hmoves.step⟩, hawake', hfailed'⟩,
      rank_lt (race_gate hrun) (run_started hrun) hmoves ha⟩

/-- Without a spurious wake-up, neither a resting thread nor a failed creation is made
    good. -/
theorem hopeless_step {s' : Race n.val} {a : Action n.val} (h : Run (races n) as s)
    (hhopeless : ¬ Awake s.barrier ∨ s.main.failed = true) (ha : a.Regular)
    (hmoves : s.Moves a s') : ¬ Awake s'.barrier ∨ s'.main.failed = true := by
  rcases hhopeless with hasleep | hfailed
  · refine Or.inl ?_
    cases hmoves with
    | @sync t ch b hruns hb =>
        obtain ⟨hnotified, u, hu⟩ := not_awake_iff.mp hasleep
        have hstep : Moves s.barrier t ch b := step_moves (by rw [Fintype.card_fin]; exact hb)
        have hch : ch ≠ .wakeUp := by
          rintro rfl
          exact ha
        obtain ⟨hn, hrest⟩ := hstep.strands (race_gate h) hch hnotified hu
        exact not_awake_iff.mpr ⟨hn, u, hrest⟩
    | _ => exact hasleep
  · refine Or.inr ?_
    cases hmoves with
    | createFails unwinds hmain => cases unwinds <;> rfl
    | unwind hmain hall => rfl
    | create hmain | collect _ hmain _ | print hmain _ _ _ _ | join hmain _ =>
        rw [hmain] at hfailed
        exact absurd hfailed Bool.false_ne_true
    | _ => exact hfailed

/-- At the end everybody has raced. -/
theorem awake_of_finished (h : Run (races n) as s) {lines : List Line}
    (hmain : s.main = .finished lines) : Awake s.barrier := by
  intro _ t
  have hfinished := (run_started h).joined lines hmain t
  have hracing := (run_started h).raced t fun hwaiting => by
    rw [hwaiting] at hfinished
    exact Bool.false_ne_true hfinished
  rw [hracing]
  rfl

/-- **When the program can finish**: exactly if no thread rests after the notification
    and no creation has failed. -/
theorem can_finish_iff (h : Run (races n) as s) :
    Race.CanFinish n s ↔ Awake s.barrier ∧ s.main.failed = false := by
  constructor
  · rintro ⟨bs, s', hpath, hregular, lines, hmain⟩
    by_contra hnot
    have hhopeless : ¬ Awake s.barrier ∨ s.main.failed = true := by
      by_cases hawake : Awake s.barrier
      · exact Or.inr (Bool.eq_true_of_not_eq_false fun hfailed => hnot ⟨hawake, hfailed⟩)
      · exact Or.inl hawake
    have hend := hpath.invariant (P := fun s => (∃ as, Run (races n) as s)
      ∧ (¬ Awake s.barrier ∨ s.main.failed = true)) hregular ?_ ⟨⟨as, h⟩, hhopeless⟩
    · obtain ⟨⟨as', hrun⟩, hasleep | hfailed⟩ := hend
      · exact hasleep (awake_of_finished hrun hmain)
      · rw [hmain] at hfailed
        exact Bool.false_ne_true hfailed
    · rintro s a s' ⟨⟨as, hrun⟩, hhopeless⟩ ha hstep
      exact ⟨⟨_, hrun.snoc hstep⟩, hopeless_step hrun hhopeless ha (race_moves hstep)⟩
  · rintro ⟨hawake, hfailed⟩
    exact finishes h hawake hfailed

/-- The first thread is between the predicate and its sleep when it is notified. -/
def lostWakeUp : List (Action 2) :=
  [.create, .create, .sync red .next, .sync red .next, .sync red .next, .sync blue .next,
    .sync blue .next]

/-- The program can finish at the beginning, but not after the lost wake-up. -/
theorem lostWakeUp_cannot_finish :
    Race.CanFinish ⟨2, by decide, by decide⟩ (Race.begin 2) ∧
      ∃ s, Run (races ⟨2, by decide, by decide⟩) lostWakeUp s
        ∧ ¬ Race.CanFinish ⟨2, by decide, by decide⟩ s := by
  refine ⟨(can_finish_iff (.start rfl)).mpr ⟨(fun hn => nomatch hn), rfl⟩, ?_⟩
  obtain ⟨s, hfollow, hnotified, hrests⟩ : ∃ s, follow Race.step (Race.begin 2) lostWakeUp
      = some s ∧ s.barrier.notified = true ∧ (s.barrier.point red).resting = true :=
    ⟨_, rfl, rfl, rfl⟩
  have hrun : Run (races ⟨2, by decide, by decide⟩) lostWakeUp s :=
    run_of_follow (fun _ _ _ hnext => hnext) rfl hfollow
  refine ⟨s, hrun, fun hcan => ?_⟩
  exact not_awake_iff.mpr ⟨hnotified, red, hrests⟩ ((can_finish_iff hrun).mp hcan).1

end Progress

end ThreadRacer
