import Mathlib.Data.Finset.Card
import CppPlayground.ThreadLocalLifetimeTracker.Model

/-! # What the counters count

    The counters of a thread are the numbers of its own calls since it last reset them,
    whatever the other threads do in between (`counters_are_counts`).  So a test compares
    constructions and destructions of its thread; how that compares with the objects that
    are alive is `leak_test_exact`.

    A past is a list of calls with their threads, the latest first. -/

namespace ThreadLocalLifetimeTracker

open Transition

variable {I H : Type} [DecidableEq I] [DecidableEq H]

/-! ## The counts of a thread -/

/-- The calls that set all counters to zero. -/
def Call.resets : Call H → Bool
  | .reset | .constructFixture | .destructFixture => true
  | _ => false

/-- The calls of a thread since it last reset its counters. -/
def sinceReset (t : I) : List (I × Call H) → List (Call H)
  | [] => []
  | (u, call) :: past =>
      if u = t then
        if call.resets then [] else call :: sinceReset t past
      else sinceReset t past

/-- What is counted. -/
inductive Kind where
  | default
  | copy
  | move
  | destruct
  | copyAssign
  | moveAssign
  deriving DecidableEq, Repr

/-- The kind of a call, if it counts; a self-assignment does not. -/
def Call.kind : Call H → Option Kind
  | .reset | .constructFixture | .destructFixture => none
  | .construct _ => some .default
  | .copyConstruct _ _ => some .copy
  | .moveConstruct _ _ => some .move
  | .destruct _ => some .destruct
  | .copyAssign this other => if this = other then none else some .copyAssign
  | .moveAssign this other => if this = other then none else some .moveAssign

/-- How many of the calls are of a kind. -/
def count (kind : Kind) (calls : List (Call H)) : Nat :=
  calls.countP fun call => call.kind = some kind

/-- The numbers of the calls of every kind; the constructions are those of all three kinds. -/
def counted (calls : List (Call H)) : Counters where
  mNumConstructions := (count .default calls + count .copy calls + count .move calls : Nat)
  mNumDestructions := count .destruct calls
  mNumDefaultConstructions := count .default calls
  mNumCopyConstructions := count .copy calls
  mNumMoveConstructions := count .move calls
  mNumCopyAssignments := count .copyAssign calls
  mNumMoveAssignments := count .moveAssign calls

theorem count_cons (kind : Kind) (call : Call H) (calls : List (Call H)) :
    count kind (call :: calls) = count kind calls + if call.kind = some kind then 1 else 0 := by
  rw [count, List.countP_cons]
  simp only [decide_eq_true_eq]
  rfl

/-- An increment that is defined. -/
theorem of_increment {m : Int} {f : Int → Option Counters} {k : Counters}
    (h : (increment m).bind f = some k) : f (m + 1) = some k := by
  obtain ⟨n, hn, hf⟩ := Option.bind_eq_some_iff.mp h
  obtain ⟨-, hn⟩ := Option.ite_none_right_eq_some.mp hn
  rwa [Option.some.inj hn]

/-- A call counts itself. -/
theorem counted_cons {call : Call H} {calls : List (Call H)} {k : Counters}
    (hresets : call.resets = false) (h : call.count (counted calls) = some k) :
    k = counted (call :: calls) := by
  have hcount := fun kind => count_cons kind call calls
  cases call with
  | reset | constructFixture | destructFixture => exact nomatch hresets
  | construct this | copyConstruct this other | moveConstruct this other =>
      simp only [Call.count, Counters.construct, Counters.copyConstruct, Counters.moveConstruct,
        Option.bind_eq_bind] at h
      obtain rfl := Option.some.inj (of_increment (of_increment h))
      ext <;> simp [counted, hcount, Call.kind]
      omega
  | destruct this =>
      simp only [Call.count, Counters.destruct, Option.bind_eq_bind] at h
      obtain rfl := Option.some.inj (of_increment h)
      ext <;> simp [counted, hcount, Call.kind]
  | copyAssign this other | moveAssign this other =>
      simp only [Call.count, Counters.copyAssign, Counters.moveAssign, Option.bind_eq_bind,
        decide_eq_true_eq] at h
      by_cases hsame : this = other
      · rw [if_pos hsame] at h
        obtain rfl := Option.some.inj h
        ext <;> simp only [counted, hcount, Call.kind, if_pos hsame] <;> rfl
      · rw [if_neg hsame] at h
        obtain rfl := Option.some.inj (of_increment h)
        ext <;> simp [counted, hcount, Call.kind, hsame]

theorem count_of_resets {call : Call H} {k k' : Counters} (hresets : call.resets = true)
    (h : call.count k = some k') : k' = .zero := by
  cases call with
  | reset | constructFixture | destructFixture => exact (Option.some.inj h).symm
  | construct _ | copyConstruct _ _ | moveConstruct _ _ | destruct _ | copyAssign _ _
  | moveAssign _ _ => exact nomatch hresets

variable {s s' : State I H} {t u : I} {call : Call H}

theorem exec_eq_some (h : exec u call s = some s') :
    call.live s.alive = some s'.alive
      ∧ ∃ k, call.count (s.counters u) = some k ∧ s'.counters = Function.update s.counters u k := by
  obtain ⟨alive, halive, h⟩ := Option.bind_eq_some_iff.mp h
  obtain ⟨k, hk, h⟩ := Option.bind_eq_some_iff.mp h
  obtain rfl := Option.some.inj h
  exact ⟨halive, k, hk, rfl⟩

/-- A call is of at most one kind. -/
theorem constructions_le (calls : List (Call H)) :
    count .default calls + count .copy calls + count .move calls ≤ calls.length := by
  induction calls with
  | nil => exact Nat.le_refl 0
  | cons call calls ih =>
      have hkind : (if call.kind = some Kind.default then 1 else 0)
          + (if call.kind = some Kind.copy then 1 else 0)
          + (if call.kind = some Kind.move then 1 else 0) ≤ 1 := by
        cases call.kind with
        | none => decide
        | some kind => cases kind <;> decide
      rw [count_cons, count_cons, count_cons, List.length_cons]
      omega

theorem increment_isSome {m n : Nat} (hle : m ≤ n) (hn : n < 2 ^ 63 - 1) :
    increment (m : Int) = some ((m : Int) + 1) := if_pos (by omega)

/-- Few calls do not make a counter overflow. -/
theorem count_isSome (call : Call H) {calls : List (Call H)} {n : Nat} (hle : calls.length ≤ n)
    (hn : n < 2 ^ 63 - 1) : (call.count (counted calls)).isSome = true := by
  have hkind : ∀ kind, increment (count kind calls : Int) = some ((count kind calls : Int) + 1) :=
    fun kind => increment_isSome (List.countP_le_length.trans hle) hn
  have hall := increment_isSome ((constructions_le calls).trans hle) hn
  cases call with
  | reset | constructFixture | destructFixture => rfl
  | construct this | copyConstruct this other | moveConstruct this other =>
      simp only [Call.count, Counters.construct, Counters.copyConstruct, Counters.moveConstruct,
        counted, hkind, hall, Option.bind_eq_bind, Option.bind_some, Option.isSome_some]
  | destruct this =>
      simp only [Call.count, Counters.destruct, counted, hkind, Option.bind_eq_bind,
        Option.bind_some, Option.isSome_some]
  | copyAssign this other | moveAssign this other =>
      by_cases hsame : this = other
      · simp only [Call.count, Counters.copyAssign, Counters.moveAssign, hsame, decide_true,
          if_true, Option.isSome_some]
      · simp only [Call.count, Counters.copyAssign, Counters.moveAssign, hsame, decide_false,
          Bool.false_eq_true, if_false, counted, hkind, Option.bind_eq_bind, Option.bind_some,
          Option.isSome_some]

/-- The counters in a run. -/
theorem run_counted {as : List (I × Call H)} (h : Run (trackers I H) as s) (t : I) :
    s.counters t = counted (sinceReset t as.reverse) := by
  refine Run.invariant (I := fun as s => ∀ t, s.counters t = counted (sinceReset t as.reverse))
    ?_ ?_ h t
  · rintro _ rfl t
    rfl
  · rintro as s ⟨u, call⟩ s' - hcounters hstep t
    obtain ⟨-, k, hk, hs'⟩ := exec_eq_some hstep
    rw [hs', List.reverse_append]
    show _ = counted (sinceReset t ((u, call) :: as.reverse))
    rw [sinceReset]
    by_cases hut : u = t
    · subst hut
      rw [Function.update_self, if_pos rfl]
      by_cases hresets : call.resets = true
      · rw [if_pos hresets]
        exact count_of_resets hresets hk
      · rw [if_neg hresets]
        rw [hcounters] at hk
        exact counted_cons (Bool.eq_false_iff.mpr hresets) hk
    · rw [Function.update_of_ne (Ne.symm hut), if_neg hut]
      exact hcounters t

/-- **The counters of a thread** are, in every interleaving, the numbers of its own calls
    since it last reset them, by kind, and none overflows before the thread has made
    `2 ^ 63 - 1` calls. -/
theorem counters_are_counts {as : List (I × Call H)} (h : Run (trackers I H) as s) (t : I) :
    s.counters t = counted (sinceReset t as.reverse)
      ∧ ((sinceReset t as.reverse).length < 2 ^ 63 - 1 →
        ∀ call : Call H, (exec t call s).isSome = (call.live s.alive).isSome) := by
  have hcounters := run_counted h t
  refine ⟨hcounters, fun hfew call => ?_⟩
  have hcount := count_isSome call (Nat.le_refl _) hfew
  rw [← hcounters] at hcount
  obtain ⟨k, hk⟩ := Option.isSome_iff_exists.mp hcount
  cases hlive : call.live s.alive with
  | none => simp [exec, hlive]
  | some alive => simp [exec, hlive, hk]

/-- A test in one thread, and another thread in between. -/
def testCalls : List (Bool × Call Nat) :=
  [(true, .constructFixture), (true, .construct 0), (false, .construct 1),
    (true, .copyConstruct 2 0), (true, .copyAssign 0 0), (true, .copyAssign 0 2),
    (false, .destruct 1), (true, .destruct 2)]

theorem run_testCalls : ∃ s, Run (trackers Bool Nat) testCalls s ∧ 0 ∈ s.alive := by
  have hfollow : ∃ s, follow (fun s (a : Bool × Call Nat) => exec a.1 a.2 s)
      ⟨fun _ => .zero, ∅⟩ testCalls = some s ∧ 0 ∈ s.alive := ⟨_, rfl, by decide⟩
  obtain ⟨s, hfollow, hmem⟩ := hfollow
  exact ⟨s, run_of_follow (fun _ _ _ hnext => hnext) rfl hfollow, hmem⟩

theorem testCalls_counted : ∃ s, Run (trackers Bool Nat) testCalls s
    ∧ s.counters true = ⟨2, 1, 1, 1, 0, 1, 0⟩ ∧ s.counters false = ⟨1, 1, 1, 0, 0, 0, 0⟩ := by
  obtain ⟨s, hrun, -⟩ := run_testCalls
  exact ⟨s, hrun, (counters_are_counts hrun true).1, (counters_are_counts hrun false).1⟩

/-! ## The leak test -/

/-- The object a constructor makes. -/
def Call.constructs : Call H → Option H
  | .construct this | .copyConstruct this _ | .moveConstruct this _ => some this
  | _ => none

/-- The object a destructor ends. -/
def Call.destructs : Call H → Option H
  | .destruct this => some this
  | _ => none

/-- How often a thread has reset its counters. -/
def epoch (t : I) (past : List (I × Call H)) : Nat :=
  past.countP fun a => a.1 = t && a.2.resets

/-- The thread that constructed an object last, and when. -/
def born (this : H) : List (I × Call H) → Option (I × Nat)
  | [] => none
  | (u, call) :: past =>
      if call.constructs = some this then some (u, epoch u past) else born this past

/-- The thread constructed the object since it last reset its counters. -/
def Own (t : I) (past : List (I × Call H)) (this : H) : Prop :=
  born this past = some (t, epoch t past)

instance (t : I) (past : List (I × Call H)) (this : H) : Decidable (Own t past this) :=
  inferInstanceAs (Decidable (_ = _))

/-- How many objects a thread has constructed since it last reset its counters that are
    alive. -/
def living (t : I) (past : List (I × Call H)) (alive : Finset H) : Nat :=
  (alive.filter (Own t past)).card

/-- How many it has constructed since then that another thread has destroyed. -/
def handedOver (t : I) : List (I × Call H) → Nat
  | [] => 0
  | (u, call) :: past =>
      if u = t then if call.resets then 0 else handedOver t past
      else match call.destructs with
        | some this => handedOver t past + if Own t past this then 1 else 0
        | none => handedOver t past

/-- How many it has destroyed since then that it had not constructed since then. -/
def strays (t : I) : List (I × Call H) → Nat
  | [] => 0
  | (u, call) :: past =>
      if u = t then
        if call.resets then 0
        else match call.destructs with
          | some this => strays t past + if Own t past this then 0 else 1
          | none => strays t past
      else strays t past

/-- The numbers of constructions and destructions of a thread differ by the objects it has
    constructed that are alive or were destroyed by others, and by those of others that it
    has destroyed. -/
def Balanced (past : List (I × Call H)) (alive : Finset H) (t : I) : Prop :=
  count .default (sinceReset t past) + count .copy (sinceReset t past)
      + count .move (sinceReset t past) + strays t past
    = count .destruct (sinceReset t past) + living t past alive + handedOver t past

variable {past : List (I × Call H)} {alive alive' : Finset H} {this : H}

/-- Nothing is constructed in the future. -/
theorem epoch_of_born {e : Nat} (h : born this past = some (t, e)) : e ≤ epoch t past := by
  induction past with
  | nil => exact nomatch h
  | cons a past ih =>
      obtain ⟨u, call⟩ := a
      have hmono : epoch t past ≤ epoch t ((u, call) :: past) := by
        rw [epoch, epoch, List.countP_cons]
        exact Nat.le_add_right _ _
      rw [born] at h
      by_cases hmakes : call.constructs = some this
      · rw [if_pos hmakes] at h
        obtain ⟨rfl, rfl⟩ := Prod.mk.inj (Option.some.inj h)
        exact hmono
      · rw [if_neg hmakes] at h
        exact (ih h).trans hmono

/-- After a reset a thread has constructed nothing yet. -/
theorem living_reset (hresets : call.resets = true) :
    living t ((t, call) :: past) alive = 0 := by
  have hepoch : epoch t ((t, call) :: past) = epoch t past + 1 := by
    rw [epoch, List.countP_cons, hresets, decide_eq_true rfl]
    rfl
  have hmakes : ∀ this, call.constructs ≠ some this := by
    intro this
    cases call with
    | reset | constructFixture | destructFixture => exact (Option.some_ne_none this).symm
    | construct _ | copyConstruct _ _ | moveConstruct _ _ | destruct _ | copyAssign _ _
    | moveAssign _ _ => exact nomatch hresets
  refine Finset.card_eq_zero.mpr (Finset.filter_eq_empty_iff.mpr ?_)
  intro this _ hown
  rw [Own, born, if_neg (hmakes this), hepoch] at hown
  exact absurd (epoch_of_born hown) (Nat.not_succ_le_self _)

/-- A call that neither resets nor constructs changes no owner. -/
theorem own_cons (hresets : call.resets = false ∨ u ≠ t) (hmakes : call.constructs ≠ some this) :
    Own t ((u, call) :: past) this ↔ Own t past this := by
  have hepoch : epoch t ((u, call) :: past) = epoch t past := by
    rw [epoch, List.countP_cons]
    rcases hresets with hresets | hut
    · simp [hresets, epoch]
    · simp [hut, epoch]
  rw [Own, Own, born, if_neg hmakes, hepoch]

theorem living_cons (hresets : call.resets = false ∨ u ≠ t)
    (hmakes : ∀ this ∈ alive, call.constructs ≠ some this) :
    living t ((u, call) :: past) alive = living t past alive :=
  congrArg Finset.card (Finset.filter_congr fun this hthis => own_cons hresets (hmakes this hthis))

/-- A new object belongs to the thread that constructs it. -/
theorem living_insert (hresets : call.resets = false) (hmakes : call.constructs = some this)
    (hnew : this ∉ alive) : living t ((u, call) :: past) (insert this alive)
      = living t past alive + if u = t then 1 else 0 := by
  have hepoch : epoch t ((u, call) :: past) = epoch t past := by
    rw [epoch, List.countP_cons, hresets, Bool.and_false]
    rfl
  have hothers : living t ((u, call) :: past) alive = living t past alive := by
    refine living_cons (Or.inl hresets) fun other hother hsame => hnew ?_
    rwa [Option.some.inj (hmakes.symm.trans hsame)]
  have hown : Own t ((u, call) :: past) this ↔ u = t := by
    rw [Own, born, if_pos hmakes, hepoch, Option.some.injEq, Prod.mk.injEq]
    refine and_iff_left_of_imp ?_
    rintro rfl
    rfl
  rw [living, Finset.filter_insert]
  by_cases hut : u = t
  · rw [if_pos (hown.mpr hut), if_pos hut, Finset.card_insert_of_notMem fun hmem =>
      hnew (Finset.mem_of_mem_filter this hmem)]
    exact congrArg (· + 1) hothers
  · rw [if_neg fun h => hut (hown.mp h), if_neg hut]
    exact hothers

theorem living_erase (hmem : this ∈ alive) : living t past alive
    = living t past (alive.erase this) + if Own t past this then 1 else 0 := by
  have hgone : this ∉ (alive.erase this).filter (Own t past) := fun h =>
    Finset.notMem_erase this alive (Finset.mem_of_mem_filter this h)
  rw [living, ← Finset.insert_erase hmem, Finset.filter_insert, Finset.erase_insert
    (Finset.notMem_erase this alive)]
  by_cases hown : Own t past this
  · rw [if_pos hown, if_pos hown, Finset.card_insert_of_notMem hgone]
    rfl
  · rw [if_neg hown, if_neg hown]
    rfl

/-- A reset of the thread, or of another one. -/
theorem Balanced.reset (h : Balanced past alive t) (hresets : call.resets = true)
    (hmakes : call.constructs = none) (hends : call.destructs = none) :
    Balanced ((u, call) :: past) alive t := by
  rw [Balanced] at h ⊢
  by_cases hut : u = t
  · subst hut
    rw [living_reset hresets]
    simp [sinceReset, strays, handedOver, hresets, count]
  · rw [living_cons (Or.inr hut) fun _ _ => by simp [hmakes]]
    simpa [sinceReset, strays, handedOver, hut, hends] using h

/-- A construction by the thread, or by another one. -/
theorem Balanced.construct (h : Balanced past alive t) (hresets : call.resets = false)
    (hmakes : call.constructs = some this) (hends : call.destructs = none)
    (hkind : call.kind = some .default ∨ call.kind = some .copy ∨ call.kind = some .move)
    (hnew : this ∉ alive) : Balanced ((u, call) :: past) (insert this alive) t := by
  rw [Balanced] at h ⊢
  rw [living_insert hresets hmakes hnew]
  by_cases hut : u = t
  · rcases hkind with hkind | hkind | hkind <;>
      simp [sinceReset, strays, handedOver, hut, hresets, hends, count_cons, hkind] <;> omega
  · simpa [sinceReset, strays, handedOver, hut, hends] using h

theorem Balanced.destruct (h : Balanced past alive t) (hmem : this ∈ alive) :
    Balanced ((u, .destruct this) :: past) (alive.erase this) t := by
  have hliving : living t ((u, .destruct this) :: past) (alive.erase this)
      = living t past (alive.erase this) := living_cons (Or.inl rfl) fun _ _ => nofun
  rw [Balanced] at h ⊢
  rw [living_erase hmem] at h
  rw [hliving]
  by_cases hut : u = t
  · by_cases hown : Own t past this <;>
      simp [sinceReset, strays, handedOver, hut, Call.resets, Call.destructs, count_cons,
        Call.kind, hown] at h ⊢ <;> omega
  · by_cases hown : Own t past this <;>
      simp [sinceReset, strays, handedOver, hut, Call.destructs, hown] at h ⊢ <;> omega

theorem Balanced.assign (h : Balanced past alive t) (hresets : call.resets = false)
    (hmakes : call.constructs = none) (hends : call.destructs = none)
    (hkind : call.kind = none ∨ call.kind = some .copyAssign ∨ call.kind = some .moveAssign) :
    Balanced ((u, call) :: past) alive t := by
  rw [Balanced] at h ⊢
  rw [living_cons (Or.inl hresets) fun _ _ => by simp [hmakes]]
  by_cases hut : u = t
  · rcases hkind with hkind | hkind | hkind <;>
      simpa [sinceReset, strays, handedOver, hut, hresets, hends, count_cons, hkind] using h
  · simpa [sinceReset, strays, handedOver, hut, hends] using h

theorem kind_copyAssign (this other : H) : (Call.copyAssign this other).kind = none
    ∨ (Call.copyAssign this other).kind = some .copyAssign :=
  (Classical.em (this = other)).imp (fun h => if_pos h) fun h => if_neg h

theorem kind_moveAssign (this other : H) : (Call.moveAssign this other).kind = none
    ∨ (Call.moveAssign this other).kind = some .moveAssign :=
  (Classical.em (this = other)).imp (fun h => if_pos h) fun h => if_neg h

/-- One call keeps the balance of every thread. -/
theorem Balanced.step (h : Balanced past alive t) (hlive : call.live alive = some alive') :
    Balanced ((u, call) :: past) alive' t := by
  cases call with
  | reset | constructFixture | destructFixture =>
      obtain rfl := Option.some.inj hlive
      exact h.reset rfl rfl rfl
  | construct this =>
      obtain ⟨hnew, hinsert⟩ := Option.ite_none_right_eq_some.mp hlive
      obtain rfl := Option.some.inj hinsert
      exact h.construct rfl rfl rfl (Or.inl rfl) hnew
  | copyConstruct this other =>
      obtain ⟨⟨hnew, -⟩, hinsert⟩ := Option.ite_none_right_eq_some.mp hlive
      obtain rfl := Option.some.inj hinsert
      exact h.construct rfl rfl rfl (Or.inr (Or.inl rfl)) hnew
  | moveConstruct this other =>
      obtain ⟨⟨hnew, -⟩, hinsert⟩ := Option.ite_none_right_eq_some.mp hlive
      obtain rfl := Option.some.inj hinsert
      exact h.construct rfl rfl rfl (Or.inr (Or.inr rfl)) hnew
  | destruct this =>
      obtain ⟨hmem, herase⟩ := Option.ite_none_right_eq_some.mp hlive
      obtain rfl := Option.some.inj herase
      exact h.destruct hmem
  | copyAssign this other =>
      obtain ⟨-, hsame⟩ := Option.ite_none_right_eq_some.mp hlive
      obtain rfl := Option.some.inj hsame
      exact h.assign rfl rfl rfl ((kind_copyAssign this other).imp_right Or.inl)
  | moveAssign this other =>
      obtain ⟨-, hsame⟩ := Option.ite_none_right_eq_some.mp hlive
      obtain rfl := Option.some.inj hsame
      exact h.assign rfl rfl rfl ((kind_moveAssign this other).imp_right Or.inr)

theorem run_balanced {as : List (I × Call H)} (h : Run (trackers I H) as s) (t : I) :
    Balanced as.reverse s.alive t := by
  refine Run.invariant (I := fun as s => Balanced as.reverse s.alive t) ?_ ?_ h
  · rintro _ rfl
    rfl
  · rintro as s ⟨u, call⟩ s' - hbalanced hstep
    rw [List.reverse_append]
    exact hbalanced.step (exec_eq_some hstep).1

/-- **What the leak test tests.**  In every interleaving the numbers of constructions and of
    destructions that a thread reads are equal exactly if it has destroyed as many strange
    objects as there are objects of its own that are alive or that others have destroyed;
    so where every object is destroyed by the thread that constructed it, and before its
    next reset, exactly if none of its objects is alive. -/
theorem leak_test_exact {as : List (I × Call H)} (h : Run (trackers I H) as s) (t : I) :
    ((s.counters t).mNumConstructions = (s.counters t).mNumDestructions
        ↔ living t as.reverse s.alive + handedOver t as.reverse = strays t as.reverse)
      ∧ (handedOver t as.reverse = 0 → strays t as.reverse = 0 →
        ((s.counters t).mNumConstructions = (s.counters t).mNumDestructions
          ↔ ∀ this ∈ s.alive, ¬ Own t as.reverse this)) := by
  have hbalanced := run_balanced h t
  rw [Balanced] at hbalanced
  have hequal : (s.counters t).mNumConstructions = (s.counters t).mNumDestructions
      ↔ living t as.reverse s.alive + handedOver t as.reverse = strays t as.reverse := by
    rw [run_counted h t]
    show ((_ : Nat) : Int) = ((_ : Nat) : Int) ↔ _
    omega
  refine ⟨hequal, fun hhanded hstrays => hequal.trans ?_⟩
  rw [hhanded, hstrays, Nat.add_zero, living, Finset.card_eq_zero, Finset.filter_eq_empty_iff]

/-- The first thread finds that its first object is alive, the second nothing. -/
theorem testCalls_leak : ∃ s, Run (trackers Bool Nat) testCalls s
    ∧ (s.counters true).mNumConstructions ≠ (s.counters true).mNumDestructions := by
  obtain ⟨s, hrun, hmem⟩ := run_testCalls
  refine ⟨s, hrun, fun hequal => ?_⟩
  exact ((leak_test_exact hrun true).2 (by decide) (by decide)).mp hequal 0 hmem (by decide)

end ThreadLocalLifetimeTracker
