import CppPlayground.ThreadRacer.Termination

/-! # `thread_racer`: the scoreboard

    What is printed is what happened.  `Told` says what a thread's place in the race and
    its two clock readings have to do with each other, `Knows` what `main` has collected
    so far; at the end every thread is on the scoreboard once, with the difference of its
    own two readings, and every thread has counted to `goal` in between. -/

namespace ThreadRacer

open Transition

variable {n : Nat} {s s' : Race n} {a : Action n} {t : Fin n} {as : List (Action n)}

/-- The clock readings of a thread. -/
def readings (t : Fin n) : Action n → Option Int
  | .start u now | .stop u now => if u = t then some now else none
  | _ => none

/-- What a thread has read, how often it has counted, and where it is. -/
inductive Told (t : Nat) : List Int → Nat → Lane → Prop where
  | waiting : Told t [] 0 .waiting
  | counting (start : Int) {counter : Nat} : counter ≤ goal →
      Told t [start] counter (.counting start counter)
  | finished (start stop : Int) : Told t [start, stop] goal (.finished (Result.of t start stop))

/-- `Told`, of every thread. -/
def Followed (as : List (Action n)) (s : Race n) : Prop :=
  ∀ t, Told t.val (observed (readings t) as) (as.count (.count t)) (s.lane t)

theorem count_concat (as : List (Action n)) (a : Action n) (t : Fin n) :
    (as ++ [a]).count (.count t) = as.count (.count t) + if a = .count t then 1 else 0 := by
  rw [List.count_append, List.count_singleton]
  by_cases ha : a = .count t
  · rw [if_pos ha, ha, beq_self_eq_true, if_pos rfl]
  · rw [if_neg ha, beq_eq_false_iff_ne.mpr ha, if_neg Bool.false_ne_true]

/-- A step that neither reads the clock nor counts. -/
theorem Followed.other (h : Followed as s) (hlane : s'.lane = s.lane)
    (hreads : ∀ t, readings t a = none) (hcounts : ∀ t, a ≠ .count t) :
    Followed (as ++ [a]) s' := by
  intro t
  rw [observed_concat, hreads t, count_concat, if_neg (hcounts t), hlane]
  simpa only [Option.toList_none, List.append_nil, Nat.add_zero] using h t

/-- A step of one thread of the race. -/
theorem Followed.move (h : Followed as s) (t : Fin n) (l : Lane)
    (hreads : ∀ u, u ≠ t → readings u a = none) (hcounts : ∀ u, u ≠ t → a ≠ .count u)
    (ht : Told t.val (observed (readings t) (as ++ [a])) ((as ++ [a]).count (.count t)) l) :
    Followed (as ++ [a]) (s.move t l) := by
  intro u
  by_cases hut : u = t
  · subst hut
    show Told _ _ _ (Function.update s.lane u l u)
    rwa [Function.update_self]
  · show Told _ _ _ (Function.update s.lane t l u)
    rw [Function.update_of_ne hut, observed_concat, hreads u hut, count_concat,
      if_neg (hcounts u hut)]
    simpa only [Option.toList_none, List.append_nil, Nat.add_zero] using h u

/-- **One step** of a thread or of `main`. -/
theorem followed_step (h : Followed as s) (hmoves : s.Moves a s') :
    Followed (as ++ [a]) s' := by
  cases hmoves with
  | @start t now hruns hlane hpoint =>
      refine h.move t _ (fun u hu => if_neg hu.symm) (fun u _ => nofun) ?_
      have htold := h t
      rw [hlane] at htold
      rw [observed_concat, count_concat, if_neg nofun]
      show Told _ (_ ++ (if t = t then some now else none).toList) _ _
      rw [if_pos rfl]
      generalize observed (readings t) as = rs at htold
      generalize as.count (.count t) = k at htold
      cases htold with
      | waiting => exact .counting now (Nat.zero_le goal)
  | @count t start counter hruns hlane hlt =>
      refine h.move t _ (fun u _ => rfl) (fun u hu heq => ?_) ?_
      · exact hu (Action.count.inj heq).symm
      have htold := h t
      rw [hlane] at htold
      rw [observed_concat, count_concat, if_pos rfl]
      generalize observed (readings t) as = rs at htold
      generalize as.count (.count t) = k at htold
      cases htold with
      | counting _ _ => exact .counting start hlt
  | @stop t start counter now hruns hlane hlt =>
      refine h.move t _ (fun u hu => if_neg hu.symm) (fun u _ => nofun) ?_
      have htold := h t
      rw [hlane] at htold
      rw [observed_concat, count_concat, if_neg nofun]
      show Told _ (_ ++ (if t = t then some now else none).toList) _ _
      rw [if_pos rfl]
      generalize observed (readings t) as = rs at htold
      generalize as.count (.count t) = k at htold
      cases htold with
      | counting _ hle =>
          obtain rfl : counter = goal := Nat.le_antisymm hle (Nat.le_of_not_lt hlt)
          exact .finished start now
  | _ => exact h.other rfl (fun _ => rfl) (fun _ => nofun)

/-! ## What `main` knows -/

/-- The results `main` has are those of the first threads; the lines it has printed are
    those of all results in an order by time. -/
def Knows (lane : Fin n → Lane) : Main → Prop
  | .creating _ | .unwinding _ | .terminated _ => True
  | .collecting results => ∀ i (r : Result), results[i]? = some r →
      ∃ h : i < n, lane ⟨i, h⟩ = .finished r
  | .joining lines | .finished lines => ∃ (result : Fin n → Result) (sorted : List Result),
      (∀ t, lane t = .finished (result t)) ∧ sorted.Perm (List.ofFn result)
        ∧ sorted.Pairwise (·.time ≤ ·.time) ∧ output sorted = some lines

/-- A step of a thread that has not finished. -/
theorem Knows.move {lane : Fin n → Lane} {m : Main} (h : Knows lane m)
    (ht : (lane t).isFinished = false) (l : Lane) : Knows (Function.update lane t l) m := by
  have hkeep : ∀ {u : Fin n} {r : Result}, lane u = .finished r →
      Function.update lane t l u = .finished r := by
    intro u r hu
    have hut : u ≠ t := by
      rintro rfl
      rw [hu] at ht
      exact nomatch ht
    rw [Function.update_of_ne hut]
    exact hu
  cases m with
  | creating i | unwinding i | terminated i => exact trivial
  | collecting results =>
      intro i r hr
      obtain ⟨hi, hlane⟩ := h i r hr
      exact ⟨hi, hkeep hlane⟩
  | joining lines | finished lines =>
      obtain ⟨result, sorted, hlanes, hrest⟩ := h
      exact ⟨result, sorted, fun u => hkeep (hlanes u), hrest⟩

/-- When `main` has as many results as there are threads, it has them all. -/
theorem Knows.complete {lane : Fin n → Lane} {results : List Result}
    (h : Knows lane (.collecting results)) (hlen : results.length = n) :
    ∃ result : Fin n → Result, (∀ t, lane t = .finished (result t))
      ∧ results = List.ofFn result := by
  subst hlen
  refine ⟨fun t => results.get t, ?_, (List.ofFn_get results).symm⟩
  intro t
  obtain ⟨_, hlane⟩ := h t.val (results.get t) (List.getElem?_eq_getElem t.isLt)
  exact hlane

/-- **One step** of a thread or of `main`. -/
theorem knows_step (h : Knows s.lane s.main) (hmoves : s.Moves a s') :
    Knows s'.lane s'.main := by
  cases hmoves with
  | @create i hmain =>
      by_cases hlast : i + 1 < n
      · rw [if_pos hlast]
        exact trivial
      · rw [if_neg hlast]
        intro i r hr
        exact nomatch hr
  | createFails unwinds hmain => cases unwinds <;> exact trivial
  | sync hruns hb => exact h
  | start now hruns hlane hpoint => exact h.move (by rw [hlane]; rfl) _
  | count hruns hlane hlt => exact h.move (by rw [hlane]; rfl) _
  | stop now hruns hlane hlt => exact h.move (by rw [hlane]; rfl) _
  | @collect results result hlen hmain hlane =>
      rw [hmain] at h
      intro i r hr
      by_cases hi : i < results.length
      · rw [List.getElem?_append_left hi] at hr
        exact h i r hr
      · rw [List.getElem?_append_right (Nat.le_of_not_lt hi)] at hr
        have hlast : i = results.length := by
          have := (List.getElem?_eq_some_iff.mp hr).1
          rw [List.length_singleton] at this
          omega
        subst hlast
        rw [Nat.sub_self] at hr
        obtain rfl := Option.some.inj hr
        exact ⟨hlen, hlane⟩
  | print hmain hlen hperm hsorted hlines =>
      rw [hmain] at h
      obtain ⟨result, hlanes, rfl⟩ := h.complete hlen
      exact ⟨result, _, hlanes, hperm, hsorted, hlines⟩
  | join hmain hall =>
      rw [hmain] at h
      exact h
  | unwind hmain hall => exact trivial

/-! ## What is printed -/

theorem places_eq (position : Nat) (results : List Result) :
    places position results
      = results.mapIdx fun i r => Line.place (position + i + 1) r.threadId r.time := by
  induction results generalizing position with
  | nil => rfl
  | cons r rs ih =>
      rw [places, ih, List.mapIdx_cons]
      refine congrArg _ (congrArg (List.mapIdx · rs) ?_)
      funext i r
      rw [Nat.add_right_comm position 1 i, Nat.add_assoc position i 1]

theorem minStart_mem (smallest : Result) (results : List Result) :
    minStart smallest results ∈ smallest :: results := by
  induction results generalizing smallest with
  | nil => exact List.mem_cons_self ..
  | cons r rs ih =>
      rw [minStart]
      by_cases hlt : r.startTime < smallest.startTime
      · rw [if_pos hlt]
        exact List.mem_cons_of_mem _ (ih r)
      · rw [if_neg hlt]
        rcases List.mem_cons.mp (ih smallest) with heq | hmem
        · rw [heq]
          exact List.mem_cons_self ..
        · exact List.mem_cons_of_mem _ (List.mem_cons_of_mem _ hmem)

theorem minStart_le (smallest : Result) (results : List Result) :
    ∀ r ∈ smallest :: results, (minStart smallest results).startTime ≤ r.startTime := by
  induction results generalizing smallest with
  | nil =>
      intro r hr
      obtain rfl := List.mem_singleton.mp hr
      exact Int.le_refl _
  | cons q rs ih =>
      intro r hr
      rw [minStart]
      by_cases hlt : q.startTime < smallest.startTime
      · rw [if_pos hlt]
        rcases List.mem_cons.mp hr with rfl | hmem
        · exact Int.le_trans (ih q q (List.mem_cons_self ..)) (Int.le_of_lt hlt)
        · exact ih q r hmem
      · rw [if_neg hlt]
        rcases List.mem_cons.mp hr with rfl | hmem
        · exact ih r r (List.mem_cons_self ..)
        · rcases List.mem_cons.mp hmem with rfl | hrest
          · exact Int.le_trans (ih smallest smallest (List.mem_cons_self ..)) (Int.not_lt.mp hlt)
          · exact ih smallest r (List.mem_cons_of_mem _ hrest)

/-- The delays of the results, one after the other. -/
theorem delays_eq (first : Int) (results : List Result) :
    ((results.zip (startDelay first results)).map fun p => Line.delay p.1.threadId p.2)
      = results.map fun r => Line.delay r.threadId (toUInt64 (r.startTime - first)) := by
  induction results with
  | nil => rfl
  | cons r rs ih => exact congrArg (List.cons _) ih

/-- The lines, in terms of the clock readings of the threads: every thread has counted to
    `goal` between its two readings; the ranking has each thread once, the fastest first;
    the delays are those after the first start. -/
def Scoreboard (as : List (Action n)) (lines : List Line) : Prop :=
  ∃ (start stop : Fin n → Int) (ranking : List Result) (first : Fin n),
    (∀ t, observed (readings t) as = [start t, stop t] ∧ as.count (.count t) = goal)
      ∧ ranking.Perm (List.ofFn fun t => Result.of t.val (start t) (stop t))
      ∧ ranking.Pairwise (·.time ≤ ·.time)
      ∧ (∀ t, start first ≤ start t)
      ∧ lines = (ranking.mapIdx fun i r => Line.place (i + 1) r.threadId r.time)
        ++ ranking.map fun r => Line.delay r.threadId (toUInt64 (r.startTime - start first))

theorem Followed.finished (h : Followed as s) {result : Fin n → Result}
    (hlanes : ∀ t, s.lane t = .finished (result t)) (t : Fin n) :
    ∃ start stop, observed (readings t) as = [start, stop] ∧ as.count (.count t) = goal
      ∧ result t = Result.of t.val start stop := by
  have htold := h t
  rw [hlanes t] at htold
  generalize observed (readings t) as = rs at htold ⊢
  generalize as.count (.count t) = k at htold ⊢
  generalize result t = r at htold ⊢
  cases htold with
  | finished start stop => exact ⟨start, stop, rfl, rfl, rfl⟩

/-- What `main` prints once it has all results. -/
theorem scoreboard_of_output (h : Followed as s) {result : Fin n → Result}
    (hlanes : ∀ t, s.lane t = .finished (result t)) {ranking : List Result}
    (hperm : ranking.Perm (List.ofFn result)) (hsorted : ranking.Pairwise (·.time ≤ ·.time))
    {lines : List Line} (hlines : output ranking = some lines) : Scoreboard as lines := by
  choose start stop hreadings hcount hresult using h.finished hlanes
  have hstart : ∀ r ∈ ranking, ∃ t, r.startTime = start t := by
    intro r hr
    obtain ⟨t, rfl⟩ := List.mem_ofFn.mp (hperm.mem_iff.mp hr)
    exact ⟨t, by rw [hresult t]; rfl⟩
  cases ranking with
  | nil => exact nomatch hlines
  | cons r rs =>
      obtain ⟨first, hfirst⟩ := hstart _ (minStart_mem r rs)
      refine ⟨start, stop, r :: rs, first, fun t => ⟨hreadings t, hcount t⟩, ?_, hsorted, ?_, ?_⟩
      · rwa [show result = _ from funext hresult] at hperm
      · intro t
        have hmem : result t ∈ r :: rs := hperm.mem_iff.mpr (List.mem_ofFn.mpr ⟨t, rfl⟩)
        have hle := minStart_le r rs (result t) hmem
        rwa [hfirst, hresult t] at hle
      · have hout := Option.some.inj hlines
        rw [← hout, places_eq, delays_eq, hfirst]
        simp only [Nat.zero_add]

section Runs

variable {n : NumThreads} {s : Race n.val} {as : List (Action n.val)}

theorem run_followed (h : Run (races n) as s) : Followed as s := by
  refine Run.invariant (I := Followed) ?_ ?_ h
  · rintro s rfl t
    exact .waiting
  · intro as s a s' _ hfollowed hstep
    exact followed_step hfollowed (race_moves hstep)

theorem run_knows (h : Run (races n) as s) : Knows s.lane s.main := by
  refine Run.invariant (I := fun _ s => Knows s.lane s.main) ?_ ?_ h
  · rintro s rfl
    exact trivial
  · intro as s a s' _ hknows hstep
    exact knows_step hknows (race_moves hstep)

/-- **The scoreboard of every finished run**, whatever the order of its steps, the clock
    readings and the order the sort chooses. -/
theorem finished_scoreboard {lines : List Line} (h : Run (races n) as s)
    (hmain : s.main = .finished lines) : Scoreboard as lines := by
  have hknows := run_knows h
  rw [hmain] at hknows
  obtain ⟨result, ranking, hlanes, hperm, hsorted, hlines⟩ := hknows
  exact scoreboard_of_output (run_followed h) hlanes hperm hsorted hlines

theorem two_racers_finished_scoreboard : ∃ (as : List (Action 2)) (s : Race 2)
    (lines : List Line), Run (races ⟨2, by decide, by decide⟩) as s
      ∧ s.main = .finished lines ∧ Scoreboard as lines := by
  have hstart : Run (races ⟨2, by decide, by decide⟩) [] (Race.begin 2) := .start rfl
  obtain ⟨as, s, hpath, -, lines, hmain⟩ :=
    finishes hstart (fun hn => nomatch hn) rfl
  have hrun := hstart.path hpath
  exact ⟨as, s, lines, hrun, hmain, finished_scoreboard hrun hmain⟩

end Runs

end ThreadRacer
