import Mathlib.Data.Fintype.Defs
import Mathlib.Order.BoundedOrder.Lattice
import Mathlib.Order.Nat
import CppPlayground.Lib.Events
import CppPlayground.Lib.System

/-! # Release and acquire

    A memory for threads that synchronise through atomic variables.  A load need not
    return the newest value: it returns any message of the variable that is not older
    than one the thread knows of.  A release store attaches what its thread knows to the
    message, an acquire load takes it over.  Every variable is stored to by one thread, so
    its messages are in the order of the stores.

    What is known is a view: how many events of every thread have happened before, and how
    far every variable has been seen.  Accesses of places that are not atomic are
    `Ordered` if the thread knows of all earlier ones; `run_raceFree` says that then they
    are ordered by happens-before, which depends on the events alone. -/

namespace ReleaseAcquire

open Transition Events

variable {I A L V : Type}

/-- How many events of every thread are known, and the newest known message of every
    variable. -/
abbrev View (I A : Type) : Type := (I → Nat) × (A → Nat)

/-- A value that was stored, with what is known to those who acquire it. -/
structure Message (I A V : Type) where
  value : V
  view : View I A

/-- The messages of every variable, oldest first; the view of every thread; and for every
    place that is not atomic the last access by every thread. -/
structure Memory (I A L V : Type) where
  messages : A → List (Message I A V)
  view : I → View I A
  accessed : L → I → Nat

/-- What a thread does to the memory: message `k` of `a` is loaded or stored, or a place
    accessed. -/
inductive Action (A L : Type) where
  | load (a : A) (k : Nat) (acquire : Bool)
  | store (a : A) (k : Nat) (release : Bool)
  | access (l : L)
  deriving DecidableEq, Repr

/-- The thread knows of all accesses of a place. -/
def Memory.Ordered (m : Memory I A L V) (t : I) (l : L) : Prop :=
  ∀ u, m.accessed l u ≤ (m.view t).1 u

instance [Fintype I] (m : Memory I A L V) (t : I) (l : L) : Decidable (m.Ordered t l) :=
  inferInstanceAs (Decidable (∀ u, m.accessed l u ≤ (m.view t).1 u))

section Operations

variable [DecidableEq I] [DecidableEq A] [DecidableEq L]

/-- An event of `t` is counted. -/
def tick (t : I) (w : View I A) : View I A := (Function.update w.1 t (w.1 t + 1), w.2)

/-- Message `k` of `a` is known. -/
def stamp (a : A) (k : Nat) : View I A := (⊥, Function.update ⊥ a k)

/-- The memory before anything is done: every variable has its initial value. -/
def Memory.initial (value : A → V) : Memory I A L V :=
  ⟨fun a => [⟨value a, ⊥⟩], ⊥, fun _ => ⊥⟩

/-- What `t` knows after loading message `k` of `a`. -/
def Memory.loadView (m : Memory I A L V) (t : I) (a : A) (k : Nat) (acquire : Bool)
    (msg : Message I A V) : View I A :=
  tick t (m.view t) ⊔ stamp a k ⊔ (if acquire then msg.view else ⊥)

/-- `t` loads message `k` of `a`, if that exists and `t` knows of no newer one. -/
def Memory.load (m : Memory I A L V) (t : I) (a : A) (k : Nat) (acquire : Bool) :
    Option (V × Memory I A L V) :=
  if (m.view t).2 a ≤ k then
    (m.messages a)[k]?.map fun msg => (msg.value,
      { m with view := Function.update m.view t (m.loadView t a k acquire msg) })
  else none

omit [DecidableEq L] in
theorem load_eq_some {m m' : Memory I A L V} {t : I} {a : A} {k : Nat} {acquire : Bool} {v : V}
    (h : m.load t a k acquire = some (v, m')) :
    (m.view t).2 a ≤ k ∧ ∃ msg, (m.messages a)[k]? = some msg ∧ v = msg.value
      ∧ m' = { m with view := Function.update m.view t (m.loadView t a k acquire msg) } := by
  obtain ⟨hle, hload⟩ := Option.ite_none_right_eq_some.mp h
  obtain ⟨msg, hmsg, heq⟩ := Option.map_eq_some_iff.mp hload
  obtain ⟨hv, hm'⟩ := Prod.mk.inj heq
  exact ⟨hle, msg, hmsg, hv.symm, hm'.symm⟩

/-- What `t` knows after storing the next message of `a`. -/
def Memory.storeView (m : Memory I A L V) (t : I) (a : A) : View I A :=
  tick t (m.view t) ⊔ stamp a (m.messages a).length

/-- `t` stores `v` to `a`. -/
def Memory.store (m : Memory I A L V) (t : I) (a : A) (v : V) (release : Bool) :
    Memory I A L V :=
  { m with
    messages := Function.update m.messages a (m.messages a
      ++ [⟨v, if release then m.storeView t a else stamp a (m.messages a).length⟩])
    view := Function.update m.view t (m.storeView t a) }

/-- `t` accesses a place. -/
def Memory.access (m : Memory I A L V) (t : I) (l : L) : Memory I A L V :=
  { m with
    view := Function.update m.view t (tick t (m.view t))
    accessed := Function.update m.accessed l
      (Function.update (m.accessed l) t ((m.view t).1 t + 1)) }

/-- All interleavings of threads that access only in order; `writer` is the thread that
    stores to a variable. -/
def memories (writer : A → I) (value : A → V) :
    System (Memory I A L V) (I × Action A L) where
  init m := m = .initial value
  step m e m' :=
    match e.2 with
    | .load a k acquire => ∃ v, m.load e.1 a k acquire = some (v, m')
    | .store a k release => e.1 = writer a ∧ k = (m.messages a).length
        ∧ ∃ v, m' = m.store e.1 a v release
    | .access l => m.Ordered e.1 l ∧ m' = m.access e.1 l

end Operations

/-! ## Happens-before -/

/-- Events synchronise with those of their thread, and with the release whose message they
    acquire. -/
def Synchronises (x y : I × Action A L) : Prop :=
  x.1 = y.1 ∨ ∃ a k, x.2 = .store a k true ∧ y.2 = .load a k true

/-- Any two accesses of one place are ordered. -/
def RaceFree (tr : List (I × Action A L)) : Prop :=
  ∀ i j t u l, i < j → tr[i]? = some (t, .access l) → tr[j]? = some (u, .access l) →
    Before Synchronises tr i j

variable {tr : List (I × Action A L)} {e : I × Action A L} {i j : Nat}

/-! ## What is known has happened before -/

theorem stamp_snd_self [DecidableEq A] (a : A) (k : Nat) : (stamp a k : View I A).2 a = k :=
  Function.update_self ..

theorem stamp_snd_other [DecidableEq A] {a b : A} (hb : b ≠ a) (k : Nat) :
    (stamp a k : View I A).2 b = 0 :=
  Function.update_of_ne hb ..

variable [DecidableEq I]

/-- How many events a thread has done. -/
def countOf (t : I) (tr : List (I × Action A L)) : Nat := tr.countP fun x => x.1 = t

/-- Event `i` is among those that `c` counts. -/
def Known (tr : List (I × Action A L)) (c : I → Nat) (i : Nat) : Prop :=
  ∃ x, tr[i]? = some x ∧ countOf x.1 (tr.take (i + 1)) ≤ c x.1

theorem countOf_snoc (t : I) (tr : List (I × Action A L)) (e : I × Action A L) :
    countOf t (tr ++ [e]) = countOf t tr + if e.1 = t then 1 else 0 := by
  rw [countOf, List.countP_append, List.countP_singleton]
  simp only [decide_eq_true_eq]
  rfl

/-- An event is counted itself. -/
theorem countOf_take_pos {x : I × Action A L} (h : tr[i]? = some x) :
    0 < countOf x.1 (tr.take (i + 1)) := by
  refine List.countP_pos_iff.mpr ⟨x, ?_, decide_eq_true rfl⟩
  refine List.mem_of_getElem? (i := i) ?_
  rwa [List.getElem?_take_of_lt (Nat.lt_succ_self i)]

theorem countOf_take_le (t : I) (tr : List (I × Action A L)) (n : Nat) :
    countOf t (tr.take n) ≤ countOf t tr := (List.take_sublist n tr).countP_le

omit [DecidableEq I] in
theorem take_snoc (hi : i < tr.length) : (tr ++ [e]).take (i + 1) = tr.take (i + 1) :=
  List.take_append_of_le_length hi

/-- What is known is an old event, or the last one if that is counted. -/
theorem Known.cases {c : I → Nat} (h : Known (tr ++ [e]) c i) :
    Known tr c i ∨ (i = tr.length ∧ countOf e.1 tr + 1 ≤ c e.1) := by
  obtain ⟨x, hx, hle⟩ := h
  rcases getElem?_concat hx with hold | ⟨rfl, rfl⟩
  · obtain ⟨hi, -⟩ := List.getElem?_eq_some_iff.mp hold
    rw [take_snoc hi] at hle
    exact Or.inl ⟨x, hold, hle⟩
  · rw [List.take_of_length_le (by rw [List.length_append, List.length_singleton]),
      countOf_snoc, if_pos rfl] at hle
    exact Or.inr ⟨rfl, hle⟩

/-- A view that counts no more than what has been done knows nothing of the next event. -/
theorem Known.old {c : I → Nat} (h : Known (tr ++ [e]) c i) (hc : c e.1 ≤ countOf e.1 tr) :
    Known tr c i := by
  rcases h.cases with h | ⟨-, hle⟩
  · exact h
  · omega

/-- The invariant: nothing is known that has not happened before. -/
structure Sound (tr : List (I × Action A L)) (m : Memory I A L V) : Prop where
  counted : ∀ t, (m.view t).1 t = countOf t tr
  bounded : ∀ t u, (m.view t).1 u ≤ countOf u tr
  view : ∀ t i, Known tr (m.view t).1 i →
    ∃ j x, tr[j]? = some x ∧ x.1 = t ∧ Precedes Synchronises tr i j
  messageBounded : ∀ (a : A) (k : Nat) (msg : Message I A V), (m.messages a)[k]? = some msg →
    ∀ u, msg.view.1 u ≤ countOf u tr
  message : ∀ (a : A) (k : Nat) (msg : Message I A V), (m.messages a)[k]? = some msg →
    ∀ i, Known tr msg.view.1 i →
      ∃ j x, tr[j]? = some x ∧ x.2 = .store a k true ∧ Precedes Synchronises tr i j
  accessed : ∀ l i t, tr[i]? = some (t, .access l) →
    countOf t (tr.take (i + 1)) ≤ m.accessed l t

/-- Nothing is taken over but from the message that is acquired. -/
def TakenOver (m : Memory I A L V) (t : I) (act : Action A L) (c : I → Nat) : Prop :=
  ∀ u, c u ≤ (m.view t).1 u + (if t = u then 1 else 0)
    ∨ ∃ (a : A) (k : Nat) (msg : Message I A V), act = .load a k true
      ∧ (m.messages a)[k]? = some msg ∧ c u ≤ msg.view.1 u

variable {m m' : Memory I A L V} {t : I} {act : Action A L}

/-- What the thread of the last event knows has happened before it. -/
theorem Sound.acting (h : Sound tr m) {c : I → Nat} (hc : TakenOver m t act c)
    (hi : Known (tr ++ [(t, act)]) c i) : Precedes Synchronises (tr ++ [(t, act)]) i tr.length := by
  rcases hi.cases with ⟨x, hx, hle⟩ | ⟨rfl, -⟩
  · refine Or.inr ?_
    rcases hc x.1 with hown | ⟨a, k, msg, rfl, hmsg, hle'⟩
    · -- the thread knew of it before
      have hknown : Known tr (m.view t).1 i := by
        refine ⟨x, hx, ?_⟩
        by_cases htx : t = x.1
        · have hcount := countOf_take_le x.1 tr (i + 1)
          rw [htx, h.counted x.1]
          exact hcount
        · rw [if_neg htx] at hown
          omega
      obtain ⟨j, y, hy, hyt, hij⟩ := h.view t i hknown
      exact hij.last hy (Or.inl hyt)
    · -- the message carries it
      obtain ⟨j, y, hy, hstore, hij⟩ := h.message a k msg hmsg i ⟨x, hx, hle.trans hle'⟩
      exact hij.last hy (Or.inr ⟨a, k, hstore, rfl⟩)
  · exact Or.inl rfl

/-- It is no more than has been done. -/
theorem Sound.acting_bounded (h : Sound tr m) {c : I → Nat} (hc : TakenOver m t act c) (u : I) :
    c u ≤ countOf u (tr ++ [(t, act)]) := by
  rw [countOf_snoc]
  rcases hc u with hown | ⟨a, k, msg, -, hmsg, hle⟩
  · exact hown.trans (Nat.add_le_add_right (h.bounded t u) _)
  · exact (hle.trans (h.messageBounded a k msg hmsg u)).trans (Nat.le_add_right _ _)

/-- What a step of `t` may do to the memory. -/
structure Acts (m m' : Memory I A L V) (t : I) (act : Action A L) : Prop where
  view : ∀ u, u ≠ t → m'.view u = m.view u
  counted : (m'.view t).1 t = (m.view t).1 t + 1
  takenOver : TakenOver m t act (m'.view t).1
  message : ∀ (a : A) (k : Nat) (msg : Message I A V), (m'.messages a)[k]? = some msg →
    (m.messages a)[k]? = some msg ∨ msg.view.1 = ⊥
      ∨ (act = .store a k true ∧ msg.view.1 = (m'.view t).1)
  accessed : ∀ l u, m.accessed l u ≤ m'.accessed l u
  access : ∀ l, act = .access l → m'.accessed l t = (m.view t).1 t + 1

/-- **The step lemma.** -/
theorem Sound.snoc (h : Sound tr m) (ha : Acts m m' t act) : Sound (tr ++ [(t, act)]) m' where
  counted u := by
    rw [countOf_snoc]
    by_cases hu : u = t
    · rw [hu, ha.counted, h.counted, if_pos rfl]
    · rw [ha.view u hu, h.counted, if_neg (Ne.symm hu), Nat.add_zero]
  bounded u v := by
    by_cases hu : u = t
    · rw [hu]
      exact h.acting_bounded ha.takenOver v
    · rw [ha.view u hu, countOf_snoc]
      exact (h.bounded u v).trans (Nat.le_add_right _ _)
  view u i hi := by
    by_cases hu : u = t
    · rw [hu] at hi ⊢
      exact ⟨tr.length, (t, act), List.getElem?_concat_length, rfl, h.acting ha.takenOver hi⟩
    · rw [ha.view u hu] at hi
      obtain ⟨j, x, hx, hxu, hij⟩ := h.view u i (hi.old (h.bounded u _))
      exact ⟨j, x, getElem?_snoc hx, hxu, hij.snoc _⟩
  messageBounded a k msg hmsg u := by
    rcases ha.message a k msg hmsg with hold | hnone | ⟨-, hnew⟩
    · rw [countOf_snoc]
      exact (h.messageBounded a k msg hold u).trans (Nat.le_add_right _ _)
    · rw [hnone]
      exact Nat.zero_le _
    · rw [hnew]
      exact h.acting_bounded ha.takenOver u
  message a k msg hmsg i hi := by
    rcases ha.message a k msg hmsg with hold | hnone | ⟨rfl, hnew⟩
    · obtain ⟨j, x, hx, hstore, hij⟩ :=
        h.message a k msg hold i (hi.old (h.messageBounded a k msg hold _))
      exact ⟨j, x, getElem?_snoc hx, hstore, hij.snoc _⟩
    · obtain ⟨x, hx, hle⟩ := hi
      rw [hnone] at hle
      exact absurd hle (Nat.not_le.mpr (countOf_take_pos hx))
    · rw [hnew] at hi
      exact ⟨tr.length, (t, _), List.getElem?_concat_length, rfl, h.acting ha.takenOver hi⟩
  accessed l i u hi := by
    rcases getElem?_concat hi with hold | ⟨rfl, heq⟩
    · obtain ⟨hlt, -⟩ := List.getElem?_eq_some_iff.mp hold
      rw [take_snoc hlt]
      exact (h.accessed l i u hold).trans (ha.accessed l u)
    · cases heq
      rw [List.take_of_length_le (by rw [List.length_append, List.length_singleton]),
        countOf_snoc, if_pos rfl, ha.access l rfl, h.counted]

/-! ## Runs -/

theorem sound_initial (value : A → V) : Sound ([] : List (I × Action A L)) (.initial value) where
  counted _ := rfl
  bounded _ _ := Nat.le_refl _
  view t i := by
    rintro ⟨x, hx, -⟩
    exact absurd hx.symm (Option.some_ne_none x)
  messageBounded a k msg hmsg u := by
    obtain rfl : msg = ⟨value a, ⊥⟩ := List.mem_singleton.mp (List.mem_of_getElem? hmsg)
    exact Nat.le_refl _
  message a k msg hmsg i := by
    rintro ⟨x, hx, -⟩
    exact absurd hx.symm (Option.some_ne_none x)
  accessed l i t h := absurd h.symm (Option.some_ne_none _)

theorem tick_fst_self (t : I) (w : View I A) : (tick t w).1 t = w.1 t + 1 :=
  Function.update_self ..

theorem tick_fst (t u : I) (w : View I A) :
    (tick t w).1 u = w.1 u + if t = u then 1 else 0 := by
  by_cases hu : u = t
  · rw [hu, tick_fst_self, if_pos rfl]
  · rw [if_neg (Ne.symm hu)]
    exact Function.update_of_ne hu _ _

/-- An ordered access comes after all earlier ones. -/
theorem RaceFree.access (hfree : RaceFree tr) (h : Sound tr m) {l : L}
    (hordered : m.Ordered t l) : RaceFree (tr ++ [(t, .access l)]) := by
  intro i j u v l' hij hi hj
  rcases getElem?_concat hj with hold | ⟨rfl, heq⟩
  · obtain ⟨hlt, -⟩ := List.getElem?_eq_some_iff.mp hold
    rw [List.getElem?_append_left (by omega)] at hi
    exact (hfree i j u v l' hij hi hold).snoc _
  · cases heq
    rw [List.getElem?_append_left hij] at hi
    have hknown : Known tr (m.view t).1 i := ⟨_, hi, (h.accessed l i u hi).trans (hordered u)⟩
    obtain ⟨j, x, hx, hxt, hprecedes⟩ := h.view t i hknown
    exact hprecedes.last hx (Or.inl hxt)

omit [DecidableEq I] in
/-- Any other event. -/
theorem RaceFree.other (hfree : RaceFree tr) (he : ∀ l, e.2 ≠ .access l) :
    RaceFree (tr ++ [e]) := by
  intro i j u v l hij hi hj
  rcases getElem?_concat hj with hold | ⟨-, rfl⟩
  · obtain ⟨hlt, -⟩ := List.getElem?_eq_some_iff.mp hold
    rw [List.getElem?_append_left (by omega)] at hi
    exact (hfree i j u v l hij hi hold).snoc _
  · exact absurd rfl (he l)

theorem access_acts [DecidableEq L] (m : Memory I A L V) (t : I) (l : L)
    (hcount : m.accessed l t ≤ (m.view t).1 t) : Acts m (m.access t l) t (.access l) := by
  refine ⟨fun u hu => Function.update_of_ne hu _ _, ?_, ?_, fun _ _ _ h => Or.inl h, ?_, ?_⟩
  · show (Function.update m.view t _ t).1 t = _
    rw [Function.update_self, tick_fst_self]
  · intro u
    show (Function.update m.view t _ t).1 u ≤ _ ∨ _
    rw [Function.update_self, tick_fst]
    exact Or.inl (Nat.le_refl _)
  · intro l' u
    show _ ≤ Function.update m.accessed l _ l' u
    by_cases hl : l' = l
    · subst hl
      rw [Function.update_self]
      by_cases hu : u = t
      · rw [hu, Function.update_self]
        exact hcount.trans (Nat.le_succ _)
      · rw [Function.update_of_ne hu]
    · rw [Function.update_of_ne hl]
  · intro l' hl
    cases hl
    show Function.update m.accessed l _ l t = _
    rw [Function.update_self, Function.update_self]

variable [DecidableEq A]

theorem loadView_fst (m : Memory I A L V) (t : I) (a : A) (k : Nat) (acquire : Bool)
    (msg : Message I A V) (u : I) : (m.loadView t a k acquire msg).1 u
      = max ((m.view t).1 u + if t = u then 1 else 0) (if acquire then msg.view.1 u else 0) := by
  rw [← tick_fst]
  cases acquire <;> simp [Memory.loadView, stamp]

theorem storeView_fst (m : Memory I A L V) (t : I) (a : A) (u : I) :
    (m.storeView t a).1 u = (m.view t).1 u + if t = u then 1 else 0 := by
  rw [← tick_fst]
  simp [Memory.storeView, stamp]

theorem loadView_snd (m : Memory I A L V) (t : I) (a : A) (k : Nat) (acquire : Bool)
    (msg : Message I A V) (b : A) : (m.loadView t a k acquire msg).2 b
      = max (max ((m.view t).2 b) ((stamp a k : View I A).2 b))
          (if acquire then msg.view.2 b else 0) := by
  cases acquire <;> simp [Memory.loadView, tick]

theorem storeView_snd (m : Memory I A L V) (t : I) (a b : A) : (m.storeView t a).2 b
    = max ((m.view t).2 b) ((stamp a (m.messages a).length : View I A).2 b) := rfl

theorem Sound.load_acts (h : Sound tr m) {a : A} {k : Nat} {acquire : Bool} {v : V}
    (hload : m.load t a k acquire = some (v, m')) : Acts m m' t (.load a k acquire) := by
  obtain ⟨-, msg, hmsg, -, rfl⟩ := load_eq_some hload
  have hbounded := h.messageBounded a k msg hmsg
  refine ⟨fun u hu => Function.update_of_ne hu _ _, ?_, ?_, fun _ _ _ h => Or.inl h,
    fun _ _ => Nat.le_refl _, fun l hl => nomatch hl⟩
  · show (Function.update m.view t _ t).1 t = _
    have hle := hbounded t
    rw [← h.counted] at hle
    rw [Function.update_self, loadView_fst, if_pos rfl]
    refine Nat.max_eq_left ?_
    cases acquire
    · exact Nat.zero_le _
    · exact hle.trans (Nat.le_succ _)
  · intro u
    have hself : (Function.update m.view t (m.loadView t a k acquire msg) t).1 u = _ :=
      (congrArg (·.1 u) (Function.update_self t _ m.view)).trans (loadView_fst ..)
    cases acquire with
    | false => exact Or.inl (hself.trans_le (Nat.max_le.mpr ⟨Nat.le_refl _, Nat.zero_le _⟩))
    | true =>
        rcases Nat.le_total (msg.view.1 u) ((m.view t).1 u + if t = u then 1 else 0)
          with hle | hle
        · exact Or.inl (hself.trans_le (Nat.max_le.mpr ⟨Nat.le_refl _, hle⟩))
        · exact Or.inr ⟨a, k, msg, rfl, hmsg,
            hself.trans_le (Nat.max_le.mpr ⟨hle, Nat.le_refl _⟩)⟩

theorem store_acts (m : Memory I A L V) (t : I) (a : A) (v : V) (release : Bool) :
    Acts m (m.store t a v release) t (.store a (m.messages a).length release) := by
  refine ⟨fun u hu => Function.update_of_ne hu _ _, ?_, ?_, ?_, fun _ _ => Nat.le_refl _,
    fun l hl => nomatch hl⟩
  · show (Function.update m.view t _ t).1 t = _
    rw [Function.update_self, storeView_fst, if_pos rfl]
  · intro u
    show (Function.update m.view t _ t).1 u ≤ _ ∨ _
    rw [Function.update_self, storeView_fst]
    exact Or.inl (Nat.le_refl _)
  · intro b k msg hmsg
    change (Function.update m.messages a _ b)[k]? = some msg at hmsg
    by_cases hb : b = a
    · subst hb
      rw [Function.update_self] at hmsg
      rcases getElem?_concat hmsg with hold | ⟨rfl, rfl⟩
      · exact Or.inl hold
      · cases release with
        | false => exact Or.inr (Or.inl rfl)
        | true =>
            refine Or.inr (Or.inr ⟨rfl, ?_⟩)
            show (m.storeView t b).1 = (Function.update m.view t _ t).1
            rw [Function.update_self]
    · rw [Function.update_of_ne hb] at hmsg
      exact Or.inl hmsg

variable [DecidableEq L] {writer : A → I} {value : A → V}

theorem Sound.step (h : Sound tr m) (hstep : (memories writer value).step m e m') :
    Sound (tr ++ [e]) m' := by
  obtain ⟨t, act⟩ := e
  cases act with
  | load a k acquire =>
      obtain ⟨v, hload⟩ := hstep
      exact h.snoc (h.load_acts hload)
  | store a k release =>
      obtain ⟨-, rfl, v, rfl⟩ := hstep
      exact h.snoc (store_acts m t a v release)
  | access l =>
      obtain ⟨hordered, rfl⟩ := hstep
      exact h.snoc (access_acts m t l (hordered t))

/-- **Ordered accesses do not race**: in every run any two accesses of one place are
    ordered by happens-before. -/
theorem run_raceFree (h : Run (memories writer value) tr m) : RaceFree tr := by
  refine (Run.invariant (I := fun tr m => Sound tr m ∧ RaceFree tr) ?_ ?_ h).2
  · rintro m rfl
    exact ⟨sound_initial value, fun i j t u l _ hi => absurd hi.symm (Option.some_ne_none _)⟩
  · rintro tr m ⟨t, act⟩ m' - ⟨hsound, hfree⟩ hstep
    refine ⟨hsound.step hstep, ?_⟩
    cases act with
    | access l => exact hfree.access hsound hstep.1
    | load a k acquire => exact hfree.other fun l hl => nomatch hl
    | store a k release => exact hfree.other fun l hl => nomatch hl

end ReleaseAcquire
