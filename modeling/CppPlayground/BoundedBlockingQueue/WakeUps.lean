import CppPlayground.BoundedBlockingQueue.Fifo

/-! # `BoundedBlockingQueue`: wake-ups

    Four counters for each side tell whether a wake-up has been lost: the threads asleep,
    the threads that have been woken and not yet rechecked their predicate and acted on
    it, the notifications still owed by the other side, and what is available (free
    places, or elements).  `Changes` is everything a step can do to them.

    Without exceptions, as long as a thread is asleep what is available is covered by
    the woken threads and the notifications owed (`Covered`): `runs_lose_no_wakeUp`. -/

namespace BoundedBlockingQueue

open Transition Threads

variable {I T : Type} {capacity : Nat} {s s' : State I T} {t : I} {d : Side}

/-- Woken on a side, and not done with the recheck and what follows from it. -/
def Point.wakingOn (d : Side) : Point T → Bool
  | .woken call => call.side = d
  | .checking call slept | .operating call slept => slept && call.side = d
  | _ => false

/-- Has inserted or removed an element and has still to notify a side. -/
def Point.owesTo (d : Side) : Point T → Bool
  | .unlocking call _ | .notifying call _ => call.side.other = d
  | _ => false

/-- What a call of a side can use: free places, or elements. -/
def available (capacity : Nat) (queue : List T) : Side → Nat
  | .push => capacity - queue.length
  | .pop => queue.length

/-- The counters of one side. -/
@[ext] structure Counters where
  asleep : Nat
  awake : Nat
  owed : Nat
  available : Nat

/-- Everything a step without an exception does to the counters of a side. -/
inductive Changes (c c' : Counters) : Prop where
  | nothing (h : c' = c)
  | sleeps (ha : c.available = 0) (h : c' = { c with asleep := c.asleep + 1 })
  | givesUp (ha : c.available = 0) (h : c = { c' with awake := c'.awake + 1 })
  | wakesUp (hs : c.asleep = c'.asleep + 1) (hw : c'.awake = c.awake + 1)
      (ho : c'.owed = c.owed) (ha : c'.available = c.available)
  | takes (hs : c'.asleep = c.asleep) (hw : c.awake ≤ c'.awake + 1)
      (ho : c'.owed = c.owed) (ha : c.available = c'.available + 1)
  | offers (hs : c'.asleep = c.asleep) (hw : c'.awake = c.awake)
      (ho : c'.owed = c.owed + 1) (ha : c'.available = c.available + 1)
  | notifiesOne (hs : c.asleep = c'.asleep + 1) (hw : c'.awake = c.awake + 1)
      (ho : c.owed = c'.owed + 1) (ha : c'.available = c.available)
  | notifiesNone (hs : c.asleep = 0 ∧ c'.asleep = 0) (hw : c'.awake = c.awake)
      (ho : c.owed = c'.owed + 1) (ha : c'.available = c.available)

/-- While a thread is asleep, what is available is spoken for. -/
def Covered (c : Counters) : Prop := c.asleep = 0 ∨ c.available ≤ c.awake + c.owed

theorem Changes.covered {c c' : Counters} (h : Changes c c') (hc : Covered c) : Covered c' := by
  simp only [Covered] at *
  cases h with
  | nothing h => rw [h]; exact hc
  | sleeps ha h => rw [h]; exact Or.inr (by show c.available ≤ _; omega)
  | givesUp ha h =>
      rw [h] at ha
      exact Or.inr (by rw [show c'.available = 0 from ha]; exact Nat.zero_le _)
  | wakesUp hs hw ho ha => omega
  | takes hs hw ho ha => omega
  | offers hs hw ho ha => omega
  | notifiesOne hs hw ho ha => omega
  | notifiesNone hs hw ho ha => omega

/-! ## The counters of a state -/

variable [Fintype I]

def counters (capacity : Nat) (s : State I T) (d : Side) : Counters where
  asleep := number (Point.asleepOn d) s.point
  awake := number (Point.wakingOn d) s.point
  owed := number (Point.owesTo d) s.point
  available := available capacity s.mQueue d

theorem other_ne (d : Side) : d.other ≠ d := by cases d <;> decide

theorem eq_other_of_ne {x d : Side} (h : x ≠ d) : x.other = d := by
  cases x <;> cases d <;> first | rfl | exact absurd rfl h

theorem ready_iff_available {queue : List T} :
    ready capacity queue d = true ↔ 0 < available capacity queue d := by
  cases d with
  | push => rw [ready, available, decide_eq_true_iff]; omega
  | pop => cases queue <;> simp [ready, available]

variable [DecidableEq I]

/-- A thread goes from `p` to `p'` while the queue keeps its length. -/
structure Goes (s s' : State I T) (t : I) (p p' : Point T) : Prop where
  before : s.point t = p
  after : s'.point = Function.update s.point t p'
  length : s'.mQueue.length = s.mQueue.length

/-- What that does to the counters. -/
theorem counters_goes (capacity : Nat) {p p' : Point T} (h : Goes s s' t p p') (d : Side) :
    (counters capacity s' d).asleep + (p.asleepOn d).toNat
        = (counters capacity s d).asleep + (p'.asleepOn d).toNat
      ∧ (counters capacity s' d).awake + (p.wakingOn d).toNat
        = (counters capacity s d).awake + (p'.wakingOn d).toNat
      ∧ (counters capacity s' d).owed + (p.owesTo d).toNat
        = (counters capacity s d).owed + (p'.owesTo d).toNat
      ∧ (counters capacity s' d).available = (counters capacity s d).available := by
  have hnumber : ∀ Q : Point T → Bool,
      number Q s'.point + (Q p).toNat = number Q s.point + (Q p').toNat := by
    intro Q
    rw [h.after, ← h.before]
    exact number_update Q s.point t p'
  refine ⟨hnumber _, hnumber _, hnumber _, ?_⟩
  cases d with
  | push => exact congrArg (capacity - ·) h.length
  | pop => exact h.length

/-- Between two points that count alike, nothing changes. -/
theorem counters_same {p p' : Point T} (h : Goes s s' t p p')
    (hs : p'.asleepOn d = p.asleepOn d) (hw : p'.wakingOn d = p.wakingOn d)
    (ho : p'.owesTo d = p.owesTo d) : counters capacity s' d = counters capacity s d := by
  obtain ⟨hsleep, hwake, howe, havail⟩ := counters_goes capacity h d
  rw [hs] at hsleep
  rw [hw] at hwake
  rw [ho] at howe
  exact Counters.ext (Nat.add_right_cancel hsleep) (Nat.add_right_cancel hwake)
    (Nat.add_right_cancel howe) havail

/-- A refused or refusing thread has nothing available. -/
theorem available_eq_zero {queue : List T} (h : ready capacity queue d = false) :
    available capacity queue d = 0 := by
  have := ready_iff_available.not.mp (Bool.eq_false_iff.mp h)
  omega

/-- One thread acts on the queue: for its own side there is one less, for the other side
    one more and a notification owed. -/
theorem changes_operate {call : Call T} {slept : Bool} {result : Option T}
    (hp : s.point t = .operating call slept)
    (hs' : s'.point = Function.update s.point t (.unlocking call result))
    (hown : available capacity s.mQueue call.side
      = available capacity s'.mQueue call.side + 1)
    (hother : available capacity s'.mQueue call.side.other
      = available capacity s.mQueue call.side.other + 1) :
    Changes (counters capacity s d) (counters capacity s' d) := by
  have hnumber : ∀ Q : Point T → Bool, number Q s'.point + (Q (.operating call slept)).toNat
      = number Q s.point + (Q (.unlocking call result)).toNat := by
    intro Q
    rw [hs', ← hp]
    exact number_update Q s.point t _
  have hsleep := hnumber (Point.asleepOn d)
  have hwake := hnumber (Point.wakingOn d)
  have howe := hnumber (Point.owesTo d)
  by_cases hd : call.side = d
  · subst hd
    -- only a thread that has slept counts as woken, so `awake` may stay as it is
    have hbit := Bool.toNat_le ((Point.operating call slept).wakingOn call.side)
    simp only [Point.owesTo, decide_eq_false (other_ne _)] at howe
    refine .takes hsleep ?_ howe hown
    show number (Point.wakingOn call.side) s.point
      ≤ number (Point.wakingOn call.side) s'.point + 1
    rw [show (Point.unlocking call result).wakingOn call.side = false from rfl,
      Bool.toNat_false] at hwake
    omega
  · obtain rfl := eq_other_of_ne hd
    simp only [Point.wakingOn, decide_eq_false hd, Bool.and_false] at hwake
    simp only [Point.owesTo, decide_true] at howe
    exact .offers hsleep hwake howe hother

/-- A woken thread finds nothing and gives up. -/
theorem changes_refuse {call : Call T} {slept : Bool}
    (hp : s.point t = .checking call slept)
    (hr : ready capacity s.mQueue call.side = false) :
    Changes (counters capacity s d) (counters capacity (s.goto t (.sleepy call)) d) := by
  have hgoes : Goes s (s.goto t (.sleepy call)) t (.checking call slept) (.sleepy call) :=
    ⟨hp, rfl, rfl⟩
  cases hw : (Point.checking call slept).wakingOn d with
  | false => exact .nothing (counters_same hgoes rfl hw.symm rfl)
  | true =>
      have hd : call.side = d := by
        simp only [Point.wakingOn, Bool.and_eq_true, decide_eq_true_iff] at hw
        exact hw.2
      subst hd
      obtain ⟨hsleep, hwake, howe, havail⟩ := counters_goes capacity hgoes call.side
      rw [hw] at hwake
      exact .givesUp (available_eq_zero hr)
        (Counters.ext hsleep.symm hwake.symm howe.symm havail.symm)

/-- A thread goes to sleep. -/
theorem changes_sleep {call : Call T} (hp : s.point t = .sleepy call)
    (hr : ready capacity s.mQueue call.side = false) :
    Changes (counters capacity s d) (counters capacity (s.unlock t (.asleep call)) d) := by
  have hgoes : Goes s (s.unlock t (.asleep call)) t (.sleepy call) (.asleep call) :=
    ⟨hp, rfl, rfl⟩
  by_cases hd : call.side = d
  · subst hd
    obtain ⟨hsleep, hwake, howe, havail⟩ := counters_goes capacity hgoes call.side
    simp only [Point.asleepOn, decide_true] at hsleep
    exact .sleeps (available_eq_zero hr) (Counters.ext hsleep hwake howe havail)
  · exact .nothing (counters_same hgoes (decide_eq_false hd) rfl rfl)

/-- A thread is woken, on its side. -/
theorem counters_wake (capacity : Nat) {call : Call T} (hp : s.point t = .asleep call) :
    (counters capacity s call.side).asleep
        = (counters capacity (s.goto t (.woken call)) call.side).asleep + 1
      ∧ (counters capacity (s.goto t (.woken call)) call.side).awake
        = (counters capacity s call.side).awake + 1
      ∧ (counters capacity (s.goto t (.woken call)) call.side).owed
        = (counters capacity s call.side).owed := by
  have hgoes : Goes s (s.goto t (.woken call)) t (.asleep call) (.woken call) := ⟨hp, rfl, rfl⟩
  obtain ⟨hsleep, hwake, howe, -⟩ := counters_goes capacity hgoes call.side
  simp only [Point.asleepOn, decide_true] at hsleep
  simp only [Point.wakingOn, decide_true] at hwake
  exact ⟨hsleep.symm, hwake, howe⟩

/-- A thread is woken, seen from the other side. -/
theorem counters_wake_other (capacity : Nat) {call : Call T} (hp : s.point t = .asleep call)
    (hd : call.side ≠ d) :
    counters capacity (s.goto t (.woken call)) d = counters capacity s d :=
  counters_same ⟨hp, rfl, rfl⟩ (decide_eq_false hd).symm (decide_eq_false hd) rfl

/-- A thread has notified and returns. -/
theorem counters_return (capacity : Nat) {call : Call T} {result : Option T}
    (hp : s.point t = .notifying call result) :
    (counters capacity (s.goto t .idle) call.side.other).asleep
        = (counters capacity s call.side.other).asleep
      ∧ (counters capacity (s.goto t .idle) call.side.other).awake
        = (counters capacity s call.side.other).awake
      ∧ (counters capacity s call.side.other).owed
        = (counters capacity (s.goto t .idle) call.side.other).owed + 1 := by
  have hgoes : Goes s (s.goto t .idle) t (.notifying call result) .idle := ⟨hp, rfl, rfl⟩
  obtain ⟨hsleep, hwake, howe, -⟩ := counters_goes capacity hgoes call.side.other
  simp only [Point.owesTo, decide_true] at howe
  exact ⟨hsleep, hwake, howe.symm⟩

theorem counters_return_own {call : Call T} {result : Option T}
    (hp : s.point t = .notifying call result) (hd : call.side.other ≠ d) :
    counters capacity (s.goto t .idle) d = counters capacity s d :=
  counters_same ⟨hp, rfl, rfl⟩ rfl rfl (decide_eq_false hd).symm

/-- **Everything a step without an exception does to the counters.** -/
theorem moves_changes {ch : Choice I T} {e : Event T} (hmoves : Moves capacity s t ch e s')
    (hex : Exclusive capacity s) (hquiet : ∀ left, ch ≠ .fail left) (d : Side) :
    Changes (counters capacity s d) (counters capacity s' d) := by
  cases hmoves with
  | call call hp => exact .nothing (counters_same ⟨hp, rfl, rfl⟩ rfl rfl rfl)
  | lock call hp hm => exact .nothing (counters_same ⟨hp, rfl, rfl⟩ rfl rfl rfl)
  | relock call hp hm =>
      exact .nothing (counters_same ⟨hp, rfl, rfl⟩ rfl (Bool.true_and _) rfl)
  | accept call slept hp hr => exact .nothing (counters_same ⟨hp, rfl, rfl⟩ rfl rfl rfl)
  | refuse call slept hp hr => exact changes_refuse hp hr
  | sleep call hp =>
      have hrefused := hex.knows t
      rw [hp] at hrefused
      -- the mutex has been held since the check, so the predicate still is false
      exact changes_sleep hp hrefused
  | insert call slept value hp hside =>
      have hroom := hex.knows t
      rw [hp] at hroom
      have hlt := (ready_push_iff hside).mp hroom
      have hlen : (s.mQueue ++ [value]).length = s.mQueue.length + 1 := List.length_append
      refine changes_operate hp rfl ?_ ?_
      · rw [hside]
        show capacity - s.mQueue.length = capacity - (s.mQueue ++ [value]).length + 1
        omega
      · rw [hside]
        exact hlen
  | remove call slept value rest hp hside hq =>
      have hbound := hex.bounded
      rw [hq, List.length_cons] at hbound
      refine changes_operate hp rfl ?_ ?_
      · rw [hside, hq]
        rfl
      · rw [hside, hq]
        show capacity - rest.length = capacity - (rest.length + 1) + 1
        omega
  | crash call slept hp hside hq =>
      have hfull := hex.knows t
      rw [hp] at hfull
      exact absurd hq ((ready_pop_iff hside).mp hfull)
  | unlock call result hp => exact .nothing (counters_same ⟨hp, rfl, rfl⟩ rfl rfl rfl)
  | unwind call hp => exact .nothing (counters_same ⟨hp, rfl, rfl⟩ rfl rfl rfl)
  | wakeUp call hp =>
      by_cases hd : call.side = d
      · subst hd
        obtain ⟨hsleep, hwake, howe⟩ := counters_wake capacity hp
        exact .wakesUp hsleep hwake howe rfl
      · exact .nothing (counters_wake_other capacity hp hd)
  | fail call slept left hp => exact absurd rfl (hquiet left)
  | notifyOne call call' result u hp hu hside =>
      have hne : t ≠ u := by
        rintro rfl
        rw [hp] at hu
        exact nomatch hu
      -- two threads move at once: first `u` is woken, then `t` returns
      have hpt : (s.goto u (.woken call')).point t = .notifying call result := by
        show Function.update s.point u _ t = _
        rw [Function.update_of_ne hne, hp]
      by_cases hd : call.side.other = d
      · subst hd
        obtain ⟨hsleep, hwake, howe⟩ := counters_wake capacity hu
        obtain ⟨hsleep', hwake', howe'⟩ := counters_return capacity hpt
        rw [hside] at hsleep hwake howe
        exact .notifiesOne (by omega) (by omega) (by omega) rfl
      · have hwoken := counters_wake_other capacity hu (by rw [hside]; exact hd)
        exact .nothing ((counters_return_own hpt hd).trans hwoken)
  | notifyNone call result hp hu =>
      by_cases hd : call.side.other = d
      · subst hd
        obtain ⟨hsleep, hwake, howe⟩ := counters_return capacity hp
        have hnone : (counters capacity s call.side.other).asleep = 0 :=
          number_eq_zero_iff.mpr hu
        -- `notify_one` may be wasted only because nobody is asleep there
        exact .notifiesNone ⟨hnone, hsleep.trans hnone⟩ hwake howe rfl
      · exact .nothing (counters_return_own hp hd)

/-! ## Without exceptions -/

omit [DecidableEq I] in
theorem counters_start (capacity : Nat) (d : Side) :
    (counters capacity (start : State I T) d).asleep = 0 :=
  number_eq_zero_iff.mpr fun _ => rfl

omit [Fintype I] [DecidableEq I] in
theorem not_fail_of_quietStep {ch : Choice I T} {e : Event T}
    (h : quietStep s (t, ch, e) = true) (left : T) : ch ≠ .fail left := by
  rintro rfl
  exact nomatch h

/-- What is available is covered in every run without exceptions. -/
theorem run_covered {tr : List (Label I T)}
    (h : Run ((queues I T capacity).restrict fun s a => quietStep s a = true) tr s)
    (d : Side) : Covered (counters capacity s d) := by
  refine Run.invariant (S := (queues I T capacity).restrict fun s a => quietStep s a = true)
    (I := fun _ s => Covered (counters capacity s d)) ?_ ?_ h
  · rintro s rfl
    exact Or.inl (counters_start capacity d)
  · rintro as s ⟨t, ch, e⟩ s' hrun hI ⟨hstep, hquiet⟩
    -- the counters of a step read what the threads know under the mutex
    exact (moves_changes (step_moves hstep) (run_exclusive hrun)
      (not_fail_of_quietStep hquiet) d).covered hI

/-- Nobody is on the way: every thread is idle or asleep. -/
def AllAsleep (s : State I T) : Prop :=
  ∀ t, s.point t = .idle ∨ ∃ call, s.point t = .asleep call

omit [DecidableEq I] in
theorem AllAsleep.counters (h : AllAsleep s) (capacity : Nat) (d : Side) :
    (counters capacity s d).awake = 0 ∧ (counters capacity s d).owed = 0 := by
  constructor
  · refine number_eq_zero_iff.mpr ?_
    intro t
    rcases h t with hp | ⟨call, hp⟩ <;> rw [hp] <;> rfl
  · refine number_eq_zero_iff.mpr ?_
    intro t
    rcases h t with hp | ⟨call, hp⟩ <;> rw [hp] <;> rfl

/-- **No wake-up is lost.**  In every run in which nothing throws, while a thread is
    asleep on a condition variable, what is available on its side is at most the number
    of woken threads that have not yet rechecked their predicate and acted on it plus the
    number of threads of the other side between their change of the queue and their
    notification.  So when every thread in a call is asleep none of them could proceed,
    and pushers and poppers are never all asleep together. -/
theorem runs_lose_no_wakeUp (hcap : 1 ≤ capacity) {tr : List (Label I T)}
    (h : Run ((queues I T capacity).restrict fun s a => quietStep s a = true) tr s) :
    (∀ d, (∃ t, (s.point t).asleepOn d = true) → available capacity s.mQueue d
        ≤ number (Point.wakingOn d) s.point + number (Point.owesTo d) s.point)
      ∧ (AllAsleep s → ∀ t call, s.point t = .asleep call →
          ready capacity s.mQueue call.side = false)
      ∧ (AllAsleep s → ¬ ((∃ t, (s.point t).asleepOn .push = true)
          ∧ ∃ t, (s.point t).asleepOn .pop = true)) := by
  have hcovered : ∀ d, (∃ t, (s.point t).asleepOn d = true) → available capacity s.mQueue d
      ≤ number (Point.wakingOn d) s.point + number (Point.owesTo d) s.point := by
    intro d hd
    have hpos := number_pos_iff.mpr hd
    rcases run_covered h d with hzero | hle
    · exact absurd hzero (Nat.pos_iff_ne_zero.mp hpos)
    · exact hle
  have hnothing : AllAsleep s → ∀ d, (∃ t, (s.point t).asleepOn d = true) →
      available capacity s.mQueue d = 0 := by
    intro hall d hd
    obtain ⟨hawake, howed⟩ := hall.counters capacity d
    have hle := hcovered d hd
    rw [show number (Point.wakingOn d) s.point = 0 from hawake,
      show number (Point.owesTo d) s.point = 0 from howed] at hle
    exact Nat.le_zero.mp hle
  refine ⟨hcovered, ?_, ?_⟩
  · intro hall t call hp
    have hzero := hnothing hall call.side ⟨t, by rw [hp]; exact decide_eq_true rfl⟩
    rw [← Bool.not_eq_true, ready_iff_available, hzero]
    exact Nat.lt_irrefl 0
  · rintro hall ⟨hpush, hpop⟩
    have hfull : capacity - s.mQueue.length = 0 := hnothing hall .push hpush
    have hempty : s.mQueue.length = 0 := hnothing hall .pop hpop
    omega

theorem sleepThenPop_loses_no_wakeUp : ∃ tr s,
    Run ((queues Bool Nat 1).restrict fun s a => quietStep s a = true) tr s
      ∧ returned tr = [7] ∧ (AllAsleep s → ¬ ((∃ t, (s.point t).asleepOn .push = true)
          ∧ ∃ t, (s.point t).asleepOn .pop = true)) := by
  obtain ⟨tr, s, hexec, hret⟩ : ∃ tr s,
      execute 1 quietStep (start : State Bool Nat) sleepThenPop = some (tr, s)
        ∧ returned tr = [7] := ⟨_, _, rfl, rfl⟩
  have hrun := run_execute (C := fun s a => quietStep s a = true) hexec fun _ _ h => h
  exact ⟨tr, s, hrun, hret, (runs_lose_no_wakeUp (by decide) hrun).2.2⟩

/-- Woken on a side, the predicate not yet rechecked. -/
def Point.toRecheck (d : Side) : Point T → Bool
  | .woken call => call.side = d
  | .checking call slept => slept && call.side = d
  | _ => false

/-- Has released the mutex and has still to notify a side. -/
def Point.toNotify (d : Side) : Point T → Bool
  | .notifying call _ => call.side.other = d
  | _ => false

/-- A pusher has inserted an element and not yet released the mutex. -/
def sleepThenPush : List (Bool × Choice Bool Nat) :=
  [(false, .call .pop), (false, .next), (false, .next), (false, .next),
    (true, .call (.push 7)), (true, .next), (true, .next), (true, .next)]

/-- **Counting from the release of the mutex on is too late**: between the insertion and
    the release an element is in the queue, a popper asleep, and nobody counts. -/
theorem inserting_thread_counts : ¬ ∀ (tr : List (Label Bool Nat)) (s : State Bool Nat),
    Run ((queues Bool Nat 1).restrict fun s a => quietStep s a = true) tr s →
      ∀ d, (∃ t, (s.point t).asleepOn d = true) → available 1 s.mQueue d
        ≤ number (Point.toRecheck d) s.point + number (Point.toNotify d) s.point := by
  intro hall
  obtain ⟨tr, s, hexec, hasleep, havail, hnone⟩ : ∃ tr s,
      execute 1 quietStep (start : State Bool Nat) sleepThenPush = some (tr, s)
        ∧ (s.point false).asleepOn .pop = true ∧ available 1 s.mQueue .pop = 1
        ∧ ∀ t, (s.point t).toRecheck .pop = false ∧ (s.point t).toNotify .pop = false :=
    ⟨_, _, rfl, rfl, rfl, by decide⟩
  have hrun := run_execute (C := fun s a => quietStep s a = true) hexec fun _ _ h => h
  have hle := hall tr s hrun .pop ⟨false, hasleep⟩
  rw [havail, number_eq_zero_iff.mpr fun t => (hnone t).1,
    number_eq_zero_iff.mpr fun t => (hnone t).2] at hle
  exact absurd hle (by decide)

end BoundedBlockingQueue
