import CppPlayground.ThreadRacer.Barrier
import CppPlayground.ThreadRacer.Program

/-! # `thread_racer`: nobody starts early

    What the barrier promises to the race: whoever has passed it knows that every thread
    has been created and has counted itself (`starts_after_all_arrived`).  So a creation
    that fails leaves the threads created before it at the barrier for good, and `main`,
    where it joins them, too (`failed_creation_races_nobody`). -/

namespace ThreadRacer

open Transition Threads

/-! ## Past the barrier -/

section Gate

variable {I : Type} [Fintype I] {s s' : State I} {t u : I} {ch : Choice}

/-- The thread holds the mutex. -/
def Point.holding : Point → Bool
  | .checking | .sleepy | .unlocking => true
  | _ => false

/-- The thread has found the count complete in its predicate, or has notified. -/
def Point.passed : Point → Bool
  | .unlocking | .racing => true
  | _ => false

/-- Nobody passes before the count is complete; the owner of the mutex is inside its
    critical section; and a complete count is announced by one notification. -/
structure Gate (s : State I) : Prop where
  passed : ∀ t, (s.point t).passed = true → s.numThreadsReady = Fintype.card I
  held : ∀ t, s.mutex = some t → (s.point t).holding = true
  once : s.notified = true → ∀ t, s.point t ≠ .notifying
  alone : ∀ t u, s.point t = .notifying → s.point u = .notifying → t = u
  told : s.numThreadsReady = Fintype.card I → s.notified = true ∨ ∃ t, s.point t = .notifying

theorem gate_start (hpos : 0 < Fintype.card I) :
    Gate (⟨0, none, fun _ => .starting, [], false⟩ : State I) where
  passed _ h := nomatch h
  held _ h := nomatch h
  once h := nomatch h
  alone _ _ h := nomatch h
  told h := absurd h (Nat.ne_of_lt hpos)

variable [DecidableEq I]

/-- The owner of the mutex after a step of one thread that leaves the mutex alone. -/
theorem Gate.held_update (h : Gate s) {p : Point}
    (hp : p.holding = true ∨ (s.point t).holding = false) (u : I) (hu : s.mutex = some u) :
    (Function.update s.point t p u).holding = true := by
  by_cases hut : u = t
  · subst hut
    rw [Function.update_self]
    rcases hp with hp | hp
    · exact hp
    · rw [h.held u hu] at hp
      exact absurd hp Bool.false_ne_true.symm
  · rw [Function.update_of_ne hut]
    exact h.held u hu

/-- A step of a thread that neither arrives nor notifies. -/
theorem Gate.goto (h : Gate s) (ht : s.point t ≠ .notifying) (p : Point) (hp : p ≠ .notifying)
    (hpassed : p.passed = true → s.numThreadsReady = Fintype.card I) (m : Option I)
    (hheld : ∀ u, m = some u → (Function.update s.point t p u).holding = true) :
    Gate { s.goto t p with mutex := m } := by
  have hpoint : ∀ u, Function.update s.point t p u = .notifying → s.point u = .notifying := by
    intro u hu
    by_cases hut : u = t
    · rw [hut, Function.update_self] at hu
      exact absurd hu hp
    · rwa [Function.update_of_ne hut] at hu
  exact {
    passed := by
      intro u hu
      change (Function.update s.point t p u).passed = true at hu
      by_cases hut : u = t
      · rw [hut, Function.update_self] at hu
        exact hpassed hu
      · rw [Function.update_of_ne hut] at hu
        exact h.passed u hu
    held := hheld
    once := fun hn u hu => h.once hn u (hpoint u hu)
    alone := fun u v hu hv => h.alone u v (hpoint u hu) (hpoint v hv)
    told := by
      intro hfull
      rcases h.told hfull with hn | ⟨u, hu⟩
      · exact Or.inl hn
      · have hut : u ≠ t := fun heq => ht (heq ▸ hu)
        refine Or.inr ⟨u, ?_⟩
        show Function.update s.point t p u = _
        rw [Function.update_of_ne hut]
        exact hu }

theorem Gate.arrive (hbarrier : Barrier s) (h : Gate s) (hcard : Fintype.card I < 2 ^ 64)
    (hp : s.point t = .starting) : Gate (s.arrive (Fintype.card I) t) := by
  have hlt := hbarrier.lt_of_starting hp
  have hsum : (s.numThreadsReady + 1) % 2 ^ 64 = s.numThreadsReady + 1 :=
    Nat.mod_eq_of_lt (by omega)
  -- nobody has passed, notified or been notified so far
  have hpassed : ∀ u, (s.point u).passed ≠ true := fun u hu => Nat.ne_of_lt hlt (h.passed u hu)
  have hnotifying : ∀ u, s.point u ≠ .notifying := fun u hu =>
    Nat.ne_of_lt hlt (hbarrier.notifying u hu)
  have hnotified : s.notified ≠ true := fun hn => Nat.ne_of_lt hlt (hbarrier.notified hn)
  have hheld : ∀ p u, s.mutex = some u → (Function.update s.point t p u).holding = true :=
    fun p => h.held_update (Or.inr (by rw [hp]; rfl))
  have hself : ∀ p u, Function.update s.point t p u = .notifying → u = t := by
    intro p u hu
    by_contra hut
    rw [Function.update_of_ne hut] at hu
    exact hnotifying u hu
  rw [State.arrive, hsum]
  by_cases hlast : s.numThreadsReady + 1 = Fintype.card I
  · rw [if_pos hlast]
    exact {
      passed := fun _ _ => hlast
      held := hheld .notifying
      once := fun hn => absurd hn hnotified
      alone := fun u v hu hv => (hself .notifying u hu).trans (hself .notifying v hv).symm
      told := fun _ => Or.inr ⟨t, Function.update_self ..⟩ }
  · rw [if_neg hlast]
    have hnone : ∀ u, Function.update s.point t .locking u ≠ .notifying := by
      intro u hu
      rw [hself .locking u hu, Function.update_self] at hu
      cases hu
    refine ⟨?_, hheld .locking, fun hn => absurd hn hnotified, ?_, fun hn => absurd hn hlast⟩
    · intro u hu
      change (Function.update s.point t .locking u).passed = true at hu
      by_cases hut : u = t
      · rw [hut, Function.update_self] at hu
        exact absurd hu Bool.false_ne_true
      · rw [Function.update_of_ne hut] at hu
        exact absurd hu (hpassed u)
    · exact fun u _ hu => absurd hu (hnone u)

theorem Gate.notifyAll (hbarrier : Barrier s) (h : Gate s) (hp : s.point t = .notifying) :
    Gate (s.notifyAll t) := by
  have hfull := hbarrier.notifying t hp
  refine ⟨fun _ _ => hfull, ?_, ?_, ?_, fun _ => Or.inl rfl⟩
  · intro u hu
    have hheld := h.held u hu
    have hut : u ≠ t := by
      rintro rfl
      rw [hp] at hheld
      exact nomatch hheld
    show (Function.update (fun u => (s.point u).notifiedAll) t Point.racing u).holding = true
    rw [Function.update_of_ne hut]
    cases hpu : s.point u <;> rw [hpu] at hheld <;> first | rfl | exact nomatch hheld
  all_goals
    have hnone : ∀ u, (s.notifyAll t).point u ≠ .notifying := by
      intro u hu
      change Function.update (fun u => (s.point u).notifiedAll) t Point.racing u = _ at hu
      by_cases hut : u = t
      · rw [hut, Function.update_self] at hu
        exact nomatch hu
      · rw [Function.update_of_ne hut] at hu
        have hpu : s.point u = .notifying := by
          cases hpu : s.point u <;> rw [hpu] at hu <;> first | rfl | exact nomatch hu
        exact hut (h.alone u t hpu hp)
  · exact fun _ => hnone
  · exact fun u _ hu => absurd hu (hnone u)

/-- **One step** of the barrier. -/
theorem gate_step (hcard : Fintype.card I < 2 ^ 64) (hbarrier : Barrier s) (h : Gate s)
    (hmoves : Moves s t ch s') : Gate s' := by
  cases hmoves with
  | arrive hp => exact h.arrive hbarrier hcard hp
  | notifyAll hp => exact h.notifyAll hbarrier hp
  | lock hp =>
      have ht : s.point t ≠ .notifying := by
        rcases hp with hp | hp
        · rw [hp]; decide
        · rw [hp]; decide
      refine h.goto ht .checking (by decide) (fun hpassed => nomatch hpassed) (some t) ?_
      intro u hu
      obtain rfl := Option.some.inj hu
      rw [Function.update_self]
      rfl
  | checkTrue hp hready =>
      exact h.goto (by rw [hp]; decide) .unlocking (by decide) (fun _ => hready) s.mutex
        (h.held_update (Or.inl rfl))
  | checkFalse hp hready =>
      exact h.goto (by rw [hp]; decide) .sleepy (by decide) (fun hpassed => nomatch hpassed)
        s.mutex (h.held_update (Or.inl rfl))
  | sleep hp =>
      exact h.goto (by rw [hp]; decide) .asleep (by decide) (fun hpassed => nomatch hpassed)
        none (fun _ hu => nomatch hu)
  | unlock hp =>
      exact h.goto (by rw [hp]; decide) .racing (by decide)
        (fun _ => h.passed t (by rw [hp]; rfl)) none (fun _ hu => nomatch hu)
  | wakeUp hp =>
      exact h.goto (by rw [hp]; decide) .woken (by decide) (fun hpassed => nomatch hpassed)
        s.mutex (h.held_update (Or.inr (by rw [hp]; rfl)))

theorem run_gate (hpos : 0 < Fintype.card I) (hcard : Fintype.card I < 2 ^ 64)
    {as : List (I × Choice)} (h : Run (racers I) as s) : Gate s := by
  refine Run.invariant (I := fun _ s => Gate s) ?_ ?_ h
  · rintro s rfl
    exact gate_start hpos
  · intro as s a s' hrun hgate hstep
    exact gate_step hcard (run_barrier hpos hcard hrun) hgate (step_moves hstep)

/-- A step of one thread lets the others be, or wakes them up. -/
theorem Moves.others (h : Moves s t ch s') (hut : u ≠ t) :
    s'.point u = s.point u ∨ s'.point u = (s.point u).notifiedAll := by
  cases h with
  | notifyAll hp =>
      exact Or.inr (Function.update_of_ne hut _ fun u => (s.point u).notifiedAll)
  | arrive hp =>
      rw [State.arrive]
      split
      · exact Or.inl (Function.update_of_ne hut ..)
      · exact Or.inl (Function.update_of_ne hut ..)
  | _ => exact Or.inl (Function.update_of_ne hut ..)

/-- Where threads that have not started come from. -/
theorem Moves.arrived (h : Moves s t ch s') (hu : s'.point u ≠ .starting) :
    s.point u ≠ .starting ∨ (u = t ∧ ch = .next) := by
  by_cases hut : u = t
  · cases h with
    | wakeUp hp => exact Or.inl (by rw [hut, hp]; decide)
    | _ => exact Or.inr ⟨hut, rfl⟩
  · refine Or.inl fun hstarting => hu ?_
    rcases h.others hut with hsame | hsame
    · rw [hsame, hstarting]
    · rw [hsame, hstarting]
      rfl

/-- Who races goes on racing. -/
theorem Moves.racing (h : Moves s t ch s') (hu : s.point u = .racing) :
    s'.point u = .racing := by
  have hut : u ≠ t := by
    rintro rfl
    cases h with
    | lock hp => rcases hp with hp | hp <;> exact nomatch hu.symm.trans hp
    | _ hp => exact nomatch hu.symm.trans hp
  rcases h.others hut with hsame | hsame
  · rw [hsame, hu]
  · rw [hsame, hu]
    rfl

omit [DecidableEq I] in
/-- A complete count is the count of all threads. -/
theorem Barrier.all_arrived (h : Barrier s) (hfull : s.numThreadsReady = Fintype.card I)
    (t : I) : s.point t ≠ .starting := fun hp =>
  absurd hfull (Nat.ne_of_lt (h.lt_of_starting hp))

end Gate

/-! ## What a step of the program does -/

/-- The steps, by what they change. -/
inductive Race.Moves {n : Nat} (s : Race n) : Action n → Race n → Prop where
  | create {i : Nat} : s.main = .creating i →
      Moves s .create
        { s with main := if i + 1 < n then .creating (i + 1) else .collecting [] }
  | createFails {i : Nat} (unwinds : Bool) : s.main = .creating i →
      Moves s (.createFails unwinds)
        { s with main := if unwinds then .unwinding i else .terminated i }
  | sync {t : Fin n} {ch : Choice} {b : State (Fin n)} : s.Runs t →
      ThreadRacer.step n s.barrier t ch = some b → Moves s (.sync t ch) { s with barrier := b }
  | start {t : Fin n} (now : Int) : s.Runs t → s.lane t = .waiting →
      s.barrier.point t = .racing → Moves s (.start t now) (s.move t (.counting now 0))
  | count {t : Fin n} {start : Int} {counter : Nat} : s.Runs t →
      s.lane t = .counting start counter → counter < goal →
      Moves s (.count t) (s.move t (.counting start (counter + 1)))
  | stop {t : Fin n} {start : Int} {counter : Nat} (now : Int) : s.Runs t →
      s.lane t = .counting start counter → ¬ counter < goal →
      Moves s (.stop t now) (s.move t (.finished (Result.of t.val start now)))
  | collect {results : List Result} {result : Result} (h : results.length < n) :
      s.main = .collecting results → s.lane ⟨results.length, h⟩ = .finished result →
      Moves s .collect { s with main := .collecting (results ++ [result]) }
  | print {results sorted : List Result} {lines : List Line} : s.main = .collecting results →
      results.length = n → sorted.Perm results → sorted.Pairwise (·.time ≤ ·.time) →
      output sorted = some lines → Moves s (.print sorted) { s with main := .joining lines }
  | join {lines : List Line} : s.main = .joining lines →
      (∀ t, (s.lane t).isFinished = true) → Moves s .join { s with main := .finished lines }
  | unwind {i : Nat} : s.main = .unwinding i →
      (∀ t : Fin n, t.val < i → (s.lane t).isFinished = true) →
      Moves s .join { s with main := .terminated i }

variable {n : Nat} {s s' : Race n} {a : Action n} {t : Fin n}

theorem goal_lt : goal < 2 ^ 64 := by decide

/-- The loop does not reach the end of the type. -/
theorem succ_mod {counter : Nat} (hlt : counter < goal) :
    (counter + 1) % 2 ^ 64 = counter + 1 := by
  have := goal_lt
  exact Nat.mod_eq_of_lt (by omega)

theorem main_moves (hstep : s.mainStep a = some s') : s.Moves a s' := by
  cases hmain : s.main with
  | creating i =>
      cases a with
      | create =>
          simp only [Race.mainStep, hmain, Option.some.injEq] at hstep
          exact hstep ▸ .create hmain
      | createFails unwinds =>
          simp only [Race.mainStep, hmain, Option.some.injEq] at hstep
          exact hstep ▸ .createFails unwinds hmain
      | _ => simp only [Race.mainStep, hmain, reduceCtorEq] at hstep
  | collecting results =>
      cases a with
      | collect =>
          simp only [Race.mainStep, hmain, Race.collect] at hstep
          obtain ⟨hlen, hstep⟩ := Option.dite_none_right_eq_some.mp hstep
          cases hlane : s.lane ⟨results.length, hlen⟩ with
          | finished result =>
              simp only [hlane, Option.some.injEq] at hstep
              exact hstep ▸ .collect hlen hmain hlane
          | _ => simp only [hlane, reduceCtorEq] at hstep
      | print sorted =>
          simp only [Race.mainStep, hmain, Race.print] at hstep
          obtain ⟨⟨hlen, hperm, hsorted⟩, hstep⟩ := Option.ite_none_right_eq_some.mp hstep
          obtain ⟨lines, hlines, hs'⟩ := Option.map_eq_some_iff.mp hstep
          exact hs' ▸ .print hmain hlen hperm hsorted hlines
      | _ => simp only [Race.mainStep, hmain, reduceCtorEq] at hstep
  | joining lines =>
      cases a with
      | join =>
          simp only [Race.mainStep, hmain] at hstep
          obtain ⟨hall, hstep⟩ := Option.ite_none_right_eq_some.mp hstep
          exact Option.some.inj hstep ▸ .join hmain hall
      | _ => simp only [Race.mainStep, hmain, reduceCtorEq] at hstep
  | unwinding i =>
      cases a with
      | join =>
          simp only [Race.mainStep, hmain] at hstep
          obtain ⟨hall, hstep⟩ := Option.ite_none_right_eq_some.mp hstep
          exact Option.some.inj hstep ▸ .unwind hmain hall
      | _ => simp only [Race.mainStep, hmain, reduceCtorEq] at hstep
  | finished lines => cases a <;> simp only [Race.mainStep, hmain, reduceCtorEq] at hstep
  | terminated i => cases a <;> simp only [Race.mainStep, hmain, reduceCtorEq] at hstep

theorem race_moves (hstep : s.step a = some s') : s.Moves a s' := by
  cases a with
  | sync t ch =>
      obtain ⟨hruns, hstep⟩ := Option.ite_none_right_eq_some.mp hstep
      obtain ⟨b, hb, hs'⟩ := Option.map_eq_some_iff.mp hstep
      exact hs' ▸ .sync hruns hb
  | start t now =>
      obtain ⟨hruns, hstep⟩ := Option.ite_none_right_eq_some.mp hstep
      cases hlane : s.lane t with
      | waiting =>
          simp only [Race.racing, hlane] at hstep
          obtain ⟨hpoint, hstep⟩ := Option.ite_none_right_eq_some.mp hstep
          exact Option.some.inj hstep ▸ .start now hruns hlane hpoint
      | _ => simp only [Race.racing, hlane, reduceCtorEq] at hstep
  | count t =>
      obtain ⟨hruns, hstep⟩ := Option.ite_none_right_eq_some.mp hstep
      cases hlane : s.lane t with
      | counting start counter =>
          simp only [Race.racing, hlane] at hstep
          obtain ⟨hlt, hstep⟩ := Option.ite_none_right_eq_some.mp hstep
          rw [succ_mod hlt] at hstep
          exact Option.some.inj hstep ▸ .count hruns hlane hlt
      | _ => simp only [Race.racing, hlane, reduceCtorEq] at hstep
  | stop t now =>
      obtain ⟨hruns, hstep⟩ := Option.ite_none_right_eq_some.mp hstep
      cases hlane : s.lane t with
      | counting start counter =>
          simp only [Race.racing, hlane] at hstep
          obtain ⟨hlt, hstep⟩ := Option.ite_none_left_eq_some.mp hstep
          exact Option.some.inj hstep ▸ .stop now hruns hlane hlt
      | _ => simp only [Race.racing, hlane, reduceCtorEq] at hstep
  | create => exact main_moves hstep
  | createFails unwinds => exact main_moves hstep
  | collect => exact main_moves hstep
  | print sorted => exact main_moves hstep
  | join => exact main_moves hstep

/-- Every one of them can be taken. -/
theorem Race.Moves.step (h : s.Moves a s') : s.step a = some s' := by
  cases h with
  | create hmain => simp only [Race.step, Race.mainStep, hmain]
  | createFails unwinds hmain => simp only [Race.step, Race.mainStep, hmain]
  | sync hruns hb => simp only [Race.step, if_pos hruns, hb, Option.map_some]
  | start now hruns hlane hpoint =>
      simp only [Race.step, if_pos hruns, Race.racing, hlane, if_pos hpoint]
  | count hruns hlane hlt =>
      simp only [Race.step, if_pos hruns, Race.racing, hlane, if_pos hlt, succ_mod hlt]
  | stop now hruns hlane hlt =>
      simp only [Race.step, if_pos hruns, Race.racing, hlane, if_neg hlt]
  | collect hlen hmain hlane =>
      simp only [Race.step, Race.mainStep, hmain, Race.collect, dif_pos hlen, hlane]
  | print hmain hlen hperm hsorted hlines =>
      simp only [Race.step, Race.mainStep, hmain, Race.print]
      rw [if_pos ⟨hlen, hperm, hsorted⟩, hlines, Option.map_some]
  | join hmain hall =>
      simp only [Race.step, Race.mainStep, hmain]
      rw [if_pos hall]
  | unwind hmain hall =>
      simp only [Race.step, Race.mainStep, hmain]
      rw [if_pos hall]

/-! ## Who has started -/

/-- `main` has not created all threads yet, or not collected more results than there are
    threads. -/
def Main.Fits (n : Nat) : Main → Prop
  | .creating i | .unwinding i | .terminated i => i < n
  | .collecting results => results.length ≤ n
  | .joining _ | .finished _ => True

theorem Main.created_eq {n : Nat} {m : Main} (hfits : m.Fits n) (hlast : n - 1 < m.created n) :
    m.created n = n := by
  cases m with
  | creating i | unwinding i | terminated i =>
      have hi : i < n := hfits
      have hlast : n - 1 < i := hlast
      omega
  | _ => rfl

/-- A thread that has counted itself has been created and has made that step; a thread
    that has read the clock is past the barrier; at the end all threads are. -/
structure Started (as : List (Action n)) (s : Race n) : Prop where
  fits : s.main.Fits n
  created : ∀ t, s.barrier.point t ≠ .starting → t.val < s.main.created n
  arrivals : ∀ t, s.barrier.point t ≠ .starting → Action.sync t .next ∈ as
  raced : ∀ t, s.lane t ≠ .waiting → s.barrier.point t = .racing
  joined : ∀ lines, s.main = .finished lines → ∀ t, (s.lane t).isFinished = true

/-- A step of `main`, which creates more threads or as many as there are. -/
theorem Started.main {as : List (Action n)} (h : Started as s) {m : Main} (hfits : m.Fits n)
    (hmore : s.main.created n ≤ m.created n)
    (hjoined : ∀ lines, m = .finished lines → ∀ t, (s.lane t).isFinished = true) :
    Started (as ++ [a]) { s with main := m } where
  fits := hfits
  created t ht := Nat.lt_of_lt_of_le (h.created t ht) hmore
  arrivals t ht := List.mem_append_left _ (h.arrivals t ht)
  raced := h.raced
  joined := hjoined

/-- A step of a thread in the race. -/
theorem Started.move {as : List (Action n)} (h : Started as s)
    (hpoint : s.barrier.point t = .racing) (ht : (s.lane t).isFinished = false) (l : Lane) :
    Started (as ++ [a]) (s.move t l) where
  fits := h.fits
  created := h.created
  arrivals u hu := List.mem_append_left _ (h.arrivals u hu)
  raced u hu := by
    by_cases hut : u = t
    · rw [hut]
      exact hpoint
    · refine h.raced u fun hwaiting => hu ?_
      show Function.update s.lane t l u = _
      rw [Function.update_of_ne hut]
      exact hwaiting
  joined lines hmain u := by
    -- no thread moves any more
    rw [h.joined lines hmain t] at ht
    exact absurd ht.symm Bool.false_ne_true

theorem started_step {as : List (Action n)} (h : Started as s) (hmoves : s.Moves a s') :
    Started (as ++ [a]) s' := by
  cases hmoves with
  | @create i hmain =>
      have hfits : i < n := by
        have := h.fits
        rwa [hmain] at this
      by_cases hlast : i + 1 < n
      · rw [if_pos hlast]
        exact h.main hlast (by rw [hmain]; exact Nat.le_succ i) nofun
      · rw [if_neg hlast]
        exact h.main (Nat.zero_le n) (by rw [hmain]; exact Nat.le_of_lt hfits) nofun
  | @createFails i unwinds hmain =>
      have hfits : i < n := by
        have := h.fits
        rwa [hmain] at this
      cases unwinds with
      | true => exact h.main hfits (by rw [hmain]; exact Nat.le_refl i) nofun
      | false => exact h.main hfits (by rw [hmain]; exact Nat.le_refl i) nofun
  | @sync t ch b hruns hb =>
      have hstep : Moves s.barrier t ch b := step_moves (by rw [Fintype.card_fin]; exact hb)
      refine ⟨h.fits, ?_, ?_, fun u hu => hstep.racing (h.raced u hu), h.joined⟩
      · intro u hu
        rcases hstep.arrived hu with hbefore | ⟨rfl, -⟩
        · exact h.created u hbefore
        · exact hruns.1
      · intro u hu
        rcases hstep.arrived hu with hbefore | ⟨rfl, rfl⟩
        · exact List.mem_append_left _ (h.arrivals u hbefore)
        · exact List.mem_append_right _ (List.mem_singleton.mpr rfl)
  | start now hruns hlane hpoint => exact h.move hpoint (by rw [hlane]; rfl) _
  | count hruns hlane hlt =>
      exact h.move (h.raced _ (by rw [hlane]; exact nofun)) (by rw [hlane]; rfl) _
  | stop now hruns hlane hlt =>
      exact h.move (h.raced _ (by rw [hlane]; exact nofun)) (by rw [hlane]; rfl) _
  | @collect results result hlen hmain hlane =>
      refine h.main ?_ (by rw [hmain]; exact Nat.le_refl n) nofun
      show (results ++ [result]).length ≤ n
      rw [List.length_append]
      exact hlen
  | print hmain hlen hperm hsorted hlines =>
      exact h.main trivial (by rw [hmain]; exact Nat.le_refl n) nofun
  | join hmain hall =>
      exact h.main trivial (by rw [hmain]; exact Nat.le_refl n) (fun _ _ => hall)
  | @unwind i hmain hall =>
      have hfits : i < n := by
        have := h.fits
        rwa [hmain] at this
      exact h.main hfits (by rw [hmain]; exact Nat.le_refl i) nofun

section Runs

variable {n : NumThreads} {s : Race n.val} {as : List (Action n.val)}

theorem run_started (h : Run (races n) as s) : Started as s := by
  refine Run.invariant (I := Started) ?_ ?_ h
  · rintro s rfl
    exact ⟨n.pos, fun t ht => absurd rfl ht, fun t ht => absurd rfl ht,
      fun t ht => absurd rfl ht, nofun⟩
  · intro as s a s' _ hstarted hstep
    exact started_step hstarted (race_moves hstep)

/-- The threads before the race are racers at their barrier. -/
theorem barrier_run (h : Run (races n) as s) :
    ∃ bs, Run (racers (Fin n.val)) bs s.barrier := by
  refine Run.invariant (I := fun _ s => ∃ bs, Run (racers (Fin n.val)) bs s.barrier) ?_ ?_ h
  · rintro s rfl
    exact ⟨[], .start rfl⟩
  · rintro as s a s' _ ⟨bs, hbs⟩ hstep
    cases race_moves hstep with
    | @sync t ch b hruns hb =>
        refine ⟨bs ++ [(t, ch)], hbs.snoc ?_⟩
        show step (Fintype.card (Fin n.val)) s.barrier t ch = some b
        rw [Fintype.card_fin]
        exact hb
    | _ => exact ⟨bs, hbs⟩

theorem NumThreads.card_pos (n : NumThreads) : 0 < Fintype.card (Fin n.val) := by
  rw [Fintype.card_fin]
  exact n.pos

theorem NumThreads.card_lt (n : NumThreads) : Fintype.card (Fin n.val) < 2 ^ 64 := by
  rw [Fintype.card_fin]
  exact n.lt

theorem race_barrier (h : Run (races n) as s) : Barrier s.barrier := by
  obtain ⟨bs, hbs⟩ := barrier_run h
  exact run_barrier n.card_pos n.card_lt hbs

theorem race_gate (h : Run (races n) as s) : Gate s.barrier := by
  obtain ⟨bs, hbs⟩ := barrier_run h
  exact run_gate n.card_pos n.card_lt hbs

/-- A thread past the barrier knows that all threads have started. -/
theorem all_started (h : Run (races n) as s) {t : Fin n.val}
    (ht : s.barrier.point t = .racing) (u : Fin n.val) : s.barrier.point u ≠ .starting := by
  have hfull := (race_gate h).passed t (by rw [ht]; rfl)
  exact (race_barrier h).all_arrived hfull u

/-- **No false start**: when a thread reads the clock for its start, every thread has
    been created and has counted itself. -/
theorem starts_after_all_arrived {t : Fin n.val} {now : Int}
    (h : Run (races n) (as ++ [.start t now]) s) :
    s.main.created n.val = n.val ∧ s.barrier.numThreadsReady = n.val
      ∧ ∀ u, Action.sync u .next ∈ as := by
  obtain ⟨s₀, hrun, hstep⟩ := h.of_concat
  cases race_moves hstep with
  | start now hruns hlane hpoint =>
      have hall := all_started hrun hpoint
      have hstarted := run_started hrun
      refine ⟨?_, ?_, fun u => hstarted.arrivals u (hall u)⟩
      · have hlast := hstarted.created ⟨n.val - 1, Nat.sub_lt n.pos Nat.one_pos⟩ (hall _)
        exact Main.created_eq hstarted.fits hlast
      · have hfull := (race_gate hrun).passed t (by rw [hpoint]; rfl)
        rwa [Fintype.card_fin] at hfull

/-- The two racers of the runs below. -/
def red : Fin 2 := 0

def blue : Fin 2 := 1

/-- The last thread to be created and the last one to count itself are the same. -/
def lastArrives : List (Action 2) :=
  [.create, .sync red .next, .create, .sync blue .next, .sync blue .next]

theorem lastArrives_starts_after_all_arrived :
    Action.sync red .next ∈ lastArrives ∧ Action.sync blue .next ∈ lastArrives := by
  obtain ⟨s, hfollow⟩ : ∃ s, follow Race.step (Race.begin 2) (lastArrives ++ [.start blue 7])
      = some s := ⟨_, rfl⟩
  have hrun : Run (races ⟨2, by decide, by decide⟩) (lastArrives ++ [.start blue 7]) s :=
    run_of_follow (fun _ _ _ hnext => hnext) rfl hfollow
  obtain ⟨-, -, harrived⟩ := starts_after_all_arrived hrun
  exact ⟨harrived red, harrived blue⟩

/-- While a thread is missing, nobody has passed the barrier. -/
theorem nobody_races (h : Run (races n) as s) (hmissing : s.main.created n.val < n.val)
    (t : Fin n.val) : s.barrier.point t ≠ .racing := by
  intro ht
  have hcreated := (run_started h).created ⟨s.main.created n.val, hmissing⟩ (all_started h ht _)
  exact absurd hcreated (Nat.lt_irrefl _)

/-- Where `main` is after a creation that threw. -/
theorem run_failed (h : Run (races n) as s) {unwinds : Bool}
    (hfails : Action.createFails unwinds ∈ as) :
    ∃ i, i < n.val ∧ (s.main = .unwinding i ∨ s.main = .terminated i
      ∧ (unwinds = true → i = 0)) := by
  refine Run.invariant (I := fun as s => Action.createFails unwinds ∈ as → ∃ i, i < n.val ∧
    (s.main = .unwinding i ∨ s.main = .terminated i ∧ (unwinds = true → i = 0))) ?_ ?_ h hfails
  · exact fun _ _ hmem => nomatch hmem
  · intro as s a s' hrun ih hstep hmem
    have hmoves := race_moves hstep
    rcases List.mem_append.mp hmem with hbefore | hnow
    · obtain ⟨i, hi, hmain⟩ := ih hbefore
      cases hmoves with
      | sync hruns hb => exact ⟨i, hi, hmain⟩
      | start now hruns hlane hpoint => exact ⟨i, hi, hmain⟩
      | count hruns hlane hlt => exact ⟨i, hi, hmain⟩
      | stop now hruns hlane hlt => exact ⟨i, hi, hmain⟩
      | @unwind j hat hall =>
          refine ⟨j, ?_, Or.inr ⟨rfl, fun _ => ?_⟩⟩
          · have hfits := (run_started hrun).fits
            rwa [hat] at hfits
          · -- the threads that are joined have not even passed the barrier
            by_contra hpos
            have hfits : j < n.val := by
              have := (run_started hrun).fits
              rwa [hat] at this
            have hfinished := hall ⟨0, n.pos⟩ (Nat.pos_of_ne_zero hpos)
            refine nobody_races hrun (by rw [hat]; exact hfits) ⟨0, n.pos⟩ ?_
            refine (run_started hrun).raced _ fun hwaiting => ?_
            rw [hwaiting] at hfinished
            exact nomatch hfinished
      | create hat | createFails _ hat | collect _ hat _ | print hat _ _ _ _ | join hat _ =>
          rcases hmain with hmain | ⟨hmain, -⟩ <;> exact nomatch hat.symm.trans hmain
    · obtain rfl := (List.mem_singleton.mp hnow).symm
      cases hmoves with
      | @createFails i _ hat =>
          have hfits : i < n.val := by
            have := (run_started hrun).fits
            rwa [hat] at this
          refine ⟨i, hfits, ?_⟩
          cases unwinds with
          | true => exact Or.inl rfl
          | false => exact Or.inr ⟨rfl, fun h => nomatch h⟩

/-- **A creation that throws ends the race**: no thread ever passes the barrier, so where
    the exception unwinds `main`, its join of the threads created before never returns. -/
theorem failed_creation_races_nobody (h : Run (races n) as s) {unwinds : Bool}
    (hfails : Action.createFails unwinds ∈ as) :
    (∀ t, s.barrier.point t ≠ .racing ∧ s.lane t = .waiting)
      ∧ (unwinds = true → 0 < s.main.created n.val → ∃ i, s.main = .unwinding i) := by
  obtain ⟨i, hi, hmain⟩ := run_failed h hfails
  have hmissing : s.main.created n.val < n.val := by
    rcases hmain with hmain | ⟨hmain, -⟩
    · rw [hmain]
      exact hi
    · rw [hmain]
      exact hi
  refine ⟨fun t => ⟨nobody_races h hmissing t, ?_⟩, ?_⟩
  · by_contra hlane
    exact nobody_races h hmissing t ((run_started h).raced t hlane)
  · intro hunwinds hpos
    rcases hmain with hmain | ⟨hmain, hzero⟩
    · exact ⟨i, hmain⟩
    · rw [hmain, hzero hunwinds] at hpos
      exact absurd hpos (Nat.lt_irrefl 0)

/-- The creation of the second thread throws while the first one is at the barrier. -/
def secondCreationFails : List (Action 2) := [.create, .sync red .next, .createFails true]

theorem secondCreationFails_races_nobody : ∃ s : Race 2,
    Run (races ⟨2, by decide, by decide⟩) secondCreationFails s
      ∧ ∃ i, s.main = .unwinding i := by
  obtain ⟨s, hfollow, hone⟩ : ∃ s, follow Race.step (Race.begin 2) secondCreationFails
      = some s ∧ s.main.created 2 = 1 := ⟨_, rfl, rfl⟩
  have hrun : Run (races ⟨2, by decide, by decide⟩) secondCreationFails s :=
    run_of_follow (fun _ _ _ hnext => hnext) rfl hfollow
  have hfails : Action.createFails true ∈ secondCreationFails := by decide
  refine ⟨s, hrun, (failed_creation_races_nobody hrun hfails).2 rfl ?_⟩
  rw [hone]
  exact Nat.one_pos

end Runs

end ThreadRacer
