import CppPlayground.PThreadsMutex.Model

/-! # `PThreadsMutex` is a lock that knows its holder

    What the objects are for: each is free or held by one thread.  Given what `pthread.h`
    documents, every program does to its objects what the same calls do to such locks, down
    to the exceptions, and the constructor leaves no attributes object behind, whichever of
    its calls fails. -/

namespace PThreadsMutex

open Program Transition

variable {W I H A M : Type} [DecidableEq I]

/-! ## Locks -/

/-- The locks that exist, each with its holder. -/
abbrev Locks (H I : Type) : Type := H → Option (Option I)

/-- What a call does, and how it ends. -/
inductive LockStep [DecidableEq H] (P : Pthread W I A M) (σ : Locks H I) :
    Event W I H → Locks H I → Prop where
  | construct {this : H} {w : W} : σ this = none →
      LockStep P σ (.construct this w, .ok none) (Function.update σ this (some none))
  | constructFails {this : H} {w : W} {err : Int} {what : String} : σ this = none → err ≠ 0 →
      what ∈ ["pthread_mutexattr_init", "pthread_mutexattr_settype", "pthread_mutex_init"] →
      LockStep P σ (.construct this w, .threw ⟨err, what⟩) σ
  | destruct {this : H} : σ this = some none →
      LockStep P σ (.destruct this, .ok none) (Function.update σ this none)
  | lock {t : I} {this : H} {w : W} : σ this = some none →
      LockStep P σ (.lock t this w, .ok none) (Function.update σ this (some (some t)))
  | lockTwice {t : I} {this : H} {w : W} : σ this = some (some t) →
      LockStep P σ (.lock t this w, .threw ⟨P.EDEADLK, "pthread_mutex_lock"⟩) σ
  | tryLock {t : I} {this : H} {w : W} : σ this = some none →
      LockStep P σ (.tryLock t this w, .ok (some true)) (Function.update σ this (some (some t)))
  | tryLockHeld {t u : I} {this : H} {w : W} : σ this = some (some u) →
      LockStep P σ (.tryLock t this w, .ok (some false)) σ
  | unlock {t : I} {this : H} {w : W} : σ this = some (some t) →
      LockStep P σ (.unlock t this w, .ok none) (Function.update σ this (some none))
  | unlockOther {t : I} {this : H} {w : W} {holder : Option I} : σ this = some holder →
      holder ≠ some t →
      LockStep P σ (.unlock t this w, .threw ⟨P.EPERM, "pthread_mutex_unlock"⟩) σ

/-- All interleavings of calls on locks. -/
def locks (H : Type) [DecidableEq H] (P : Pthread W I A M) : System (Locks H I) (Event W I H) where
  init σ := σ = fun _ => none
  step σ a σ' := LockStep P σ a σ'

/-! ## What `pthread.h` documents -/

/-- The type of a mutex, and the thread that owns it, as the documentation has them; it
    describes the calls on mutexes that check for errors. -/
structure Documented (P : Pthread W I A M) (attrType : A → MutexType)
    (mutexType : M → MutexType) (owner : M → Option I) : Prop where
  busy : P.EBUSY ≠ 0
  deadlk : P.EDEADLK ≠ 0
  perm : P.EPERM ≠ 0
  settype : ∀ w attr type, (P.mutexattrSettype w attr type).1 = 0 →
    attrType (P.mutexattrSettype w attr type).2 = type
  init : ∀ w attr, (P.mutexInit w attr).1 = 0 →
    mutexType (P.mutexInit w attr).2 = attrType attr ∧ owner (P.mutexInit w attr).2 = none
  lock : ∀ w t mutex, mutexType mutex = .errorCheck →
    (P.mutexLock w t mutex).map (fun r => (r.1, mutexType r.2, owner r.2)) =
      match owner mutex with
      | none => some (0, .errorCheck, some t)
      | some u => if u = t then some (P.EDEADLK, .errorCheck, some t) else none
  trylock : ∀ w t mutex, mutexType mutex = .errorCheck →
    ((P.mutexTrylock w t mutex).1, mutexType (P.mutexTrylock w t mutex).2,
        owner (P.mutexTrylock w t mutex).2) =
      match owner mutex with
      | none => (0, .errorCheck, some t)
      | some u => (P.EBUSY, .errorCheck, some u)
  unlock : ∀ w t mutex, mutexType mutex = .errorCheck →
    ((P.mutexUnlock w t mutex).1, mutexType (P.mutexUnlock w t mutex).2,
        owner (P.mutexUnlock w t mutex).2) =
      if owner mutex = some t then (0, .errorCheck, none)
      else (P.EPERM, .errorCheck, owner mutex)
  destroy : ∀ mutex, mutexType mutex = .errorCheck → owner mutex = none →
    (P.mutexDestroy mutex).isSome

variable {P : Pthread W I A M} {attrType : A → MutexType} {mutexType : M → MutexType}
  {owner : M → Option I}

/-! ## The members -/

omit [DecidableEq I] in
theorem wp_check {σ : Type} (what : String) (p : Prog σ SystemError Int)
    {Q : Unit → σ → Prop} {E : SystemError → σ → Prop} {s : σ} :
    wp (check what p) Q E s ↔ wp p
      (fun err s' => (err ≠ 0 → E ⟨err, what⟩ s') ∧ (err = 0 → Q () s')) E s := by
  rw [check, wp_bind]
  simp only [wp_ite, wp_throwing, wp_pure, not_not]

section Constructor

omit [DecidableEq I]

variable {w : W} {m : Option M} {attr : A} {E : SystemError → Members A M → Prop}
  {Q : Int → Members A M → Prop}

theorem wp_mutexattrInit : wp (mutexattrInit P w) Q E ⟨m, none⟩
    ↔ Q (P.mutexattrInit w).1
      ⟨m, if (P.mutexattrInit w).1 = 0 then some (P.mutexattrInit w).2 else none⟩ := Iff.rfl

theorem wp_mutexattrSettype {type : MutexType} :
    wp (mutexattrSettype P w type) Q E ⟨m, some attr⟩
      ↔ Q (P.mutexattrSettype w attr type).1 ⟨m, some (P.mutexattrSettype w attr type).2⟩ :=
  Iff.rfl

theorem wp_mutexInit : wp (mutexInit P w) Q E ⟨m, some attr⟩
    ↔ Q (P.mutexInit w attr).1
      ⟨if (P.mutexInit w attr).1 = 0 then some (P.mutexInit w attr).2 else none, some attr⟩ :=
  Iff.rfl

theorem wp_mutexattrDestroy {Q : Unit → Members A M → Prop} :
    wp mutexattrDestroy Q E ⟨m, some attr⟩ ↔ Q () ⟨m, none⟩ := Iff.rfl

end Constructor

/-- **The constructor.**  It initialises a mutex that checks for errors and that nobody owns,
    or throws the error of its first call that failed; no attributes object is left. -/
theorem Documented.construct_spec (h : Documented P attrType mutexType owner) (w : W) :
    wp (construct P w)
      (fun _ s => s.attr = none ∧ ∃ mutex, s.mMutex = some mutex
        ∧ mutexType mutex = .errorCheck ∧ owner mutex = none)
      (fun e s => s.attr = none ∧ e.err ≠ 0 ∧ e.what ∈ ["pthread_mutexattr_init",
        "pthread_mutexattr_settype", "pthread_mutex_init"])
      ⟨none, none⟩ := by
  rw [construct, wp_bind, wp_check, wp_mutexattrInit]
  refine ⟨fun herr => ⟨if_neg herr, herr, by simp⟩, fun hattr => ?_⟩
  rw [if_pos hattr, wp_bind, wp_cleaningUp, wp_bind, wp_check, wp_mutexattrSettype]
  refine ⟨fun herr => ?_, fun hsettype => ?_⟩
  · rw [wp_mutexattrDestroy]
    exact ⟨rfl, herr, by simp⟩
  rw [wp_check, wp_mutexInit]
  refine ⟨fun herr => ?_, fun hinit => ?_⟩
  · rw [wp_mutexattrDestroy]
    exact ⟨rfl, herr, by simp⟩
  obtain ⟨htype, howner⟩ := h.init w _ hinit
  rw [h.settype w _ _ hsettype] at htype
  rw [wp_mutexattrDestroy, if_pos hinit]
  exact ⟨rfl, _, rfl, htype, howner⟩

theorem check_ok {σ : Type} {what : String} {p : Prog σ SystemError Int} {s s' : σ}
    (h : p s = (.ok 0, s')) : check what p s = (.ok (), s') := bind_of_ok h

theorem check_threw {σ : Type} {what : String} {p : Prog σ SystemError Int} {s s' : σ}
    {err : Int} (herr : err ≠ 0) (h : p s = (.ok err, s')) :
    check what p s = (.threw ⟨err, what⟩, s') := by
  refine (bind_of_ok h).trans ?_
  rw [if_pos herr]
  rfl

/-- A mutex that checks for errors, and its owner. -/
def Checks (mutexType : M → MutexType) (owner : M → Option I) (mutex : M) (holder : Option I) :
    Prop := mutexType mutex = .errorCheck ∧ owner mutex = holder

section Members

variable {mutex : M} {holder : Option I} (h : Documented P attrType mutexType owner)
  (hchecks : Checks mutexType owner mutex holder) (w : W) (t : I)

include h hchecks

/-- `lock()`: acquired, refused to its owner, or not returning. -/
theorem Documented.lock_cases :
    (holder = none ∧ ∃ mutex', Checks mutexType owner mutex' (some t)
        ∧ PThreadsMutex.lock P w t (some mutex) = (.ok (), some mutex'))
      ∨ (holder = some t ∧ ∃ mutex', Checks mutexType owner mutex' (some t)
        ∧ PThreadsMutex.lock P w t (some mutex)
          = (.threw ⟨P.EDEADLK, "pthread_mutex_lock"⟩, some mutex'))
      ∨ (∃ u, holder = some u ∧ u ≠ t
        ∧ PThreadsMutex.lock P w t (some mutex) = (.diverged, some mutex)) := by
  obtain ⟨htype, rfl⟩ := hchecks
  have hlock := h.lock w t mutex htype
  cases howner : owner mutex with
  | none =>
      rw [howner] at hlock
      obtain ⟨⟨err, mutex'⟩, hr, heq⟩ := Option.map_eq_some_iff.mp hlock
      obtain ⟨rfl, hchecks'⟩ := Prod.mk.inj heq
      refine Or.inl ⟨rfl, mutex', Prod.mk.inj hchecks', check_ok ?_⟩
      simp only [hr]
  | some u =>
      simp only [howner] at hlock
      by_cases hut : u = t
      · rw [if_pos hut] at hlock
        obtain ⟨⟨err, mutex'⟩, hr, heq⟩ := Option.map_eq_some_iff.mp hlock
        obtain ⟨rfl, hchecks'⟩ := Prod.mk.inj heq
        refine Or.inr (Or.inl ⟨congrArg some hut, mutex', Prod.mk.inj hchecks',
          check_threw h.deadlk ?_⟩)
        simp only [hr]
      · rw [if_neg hut] at hlock
        have hwaits := Option.map_eq_none_iff.mp hlock
        refine Or.inr (Or.inr ⟨u, rfl, hut, bind_of_diverged ?_⟩)
        simp only [hwaits]

/-- `try_lock()`: acquired, or held. -/
theorem Documented.tryLock_cases :
    (holder = none ∧ ∃ mutex', Checks mutexType owner mutex' (some t)
        ∧ tryLock P w t (some mutex) = (.ok true, some mutex'))
      ∨ (∃ u mutex', holder = some u ∧ Checks mutexType owner mutex' (some u)
        ∧ tryLock P w t (some mutex) = (.ok false, some mutex')) := by
  obtain ⟨htype, rfl⟩ := hchecks
  have htry := h.trylock w t mutex htype
  have hbind : tryLock P w t (some mutex) = _ := bind_of_ok rfl
  cases howner : owner mutex with
  | none =>
      rw [howner] at htry
      obtain ⟨herr, hchecks'⟩ := Prod.mk.inj htry
      refine Or.inl ⟨rfl, _, Prod.mk.inj hchecks', hbind.trans ?_⟩
      rw [if_pos herr]
      rfl
  | some u =>
      rw [howner] at htry
      obtain ⟨herr, hchecks'⟩ := Prod.mk.inj htry
      refine Or.inr ⟨u, _, rfl, Prod.mk.inj hchecks', hbind.trans ?_⟩
      rw [herr, if_neg h.busy, if_pos rfl]
      rfl

/-- `unlock()`: released by its owner, or refused. -/
theorem Documented.unlock_cases :
    (holder = some t ∧ ∃ mutex', Checks mutexType owner mutex' none
        ∧ PThreadsMutex.unlock P w t (some mutex) = (.ok (), some mutex'))
      ∨ (holder ≠ some t ∧ ∃ mutex', Checks mutexType owner mutex' holder
        ∧ PThreadsMutex.unlock P w t (some mutex)
          = (.threw ⟨P.EPERM, "pthread_mutex_unlock"⟩, some mutex')) := by
  obtain ⟨htype, rfl⟩ := hchecks
  have hunlock := h.unlock w t mutex htype
  by_cases howner : owner mutex = some t
  · rw [if_pos howner] at hunlock
    obtain ⟨herr, hchecks'⟩ := Prod.mk.inj hunlock
    refine Or.inl ⟨howner, _, Prod.mk.inj hchecks', check_ok ?_⟩
    simp only [herr]
  · rw [if_neg howner] at hunlock
    obtain ⟨herr, hchecks'⟩ := Prod.mk.inj hunlock
    refine Or.inr ⟨howner, _, Prod.mk.inj hchecks', check_threw h.perm ?_⟩
    simp only [herr]

end Members

/-! ## Objects -/

variable [DecidableEq H] {s s' : World H M} {σ : Locks H I} {this : H}

/-- An object is a lock: its mutex checks for errors, and is owned by the holder. -/
inductive IsLock (mutexType : M → MutexType) (owner : M → Option I) :
    Option (Option M) → Option (Option I) → Prop where
  | absent : IsLock mutexType owner none none
  | present {mutex : M} {holder : Option I} : Checks mutexType owner mutex holder →
      IsLock mutexType owner (some (some mutex)) (some holder)

/-- The objects are the locks, and no attributes object has been lost. -/
structure Rep (mutexType : M → MutexType) (owner : M → Option I) (s : World H M)
    (σ : Locks H I) : Prop where
  object : ∀ this, IsLock mutexType owner (s.object this) (σ this)
  leaked : s.leaked = 0

omit [DecidableEq I] [DecidableEq H] in
theorem Rep.absent (h : Rep mutexType owner s σ) (hobject : s.object this = none) :
    σ this = none := by
  have hlock := h.object this
  rw [hobject] at hlock
  generalize σ this = holder at hlock
  cases hlock
  rfl

omit [DecidableEq I] [DecidableEq H] in
theorem Rep.present (h : Rep mutexType owner s σ) (hobject : s.object this ≠ none) :
    ∃ mutex holder, s.object this = some (some mutex)
      ∧ Checks mutexType owner mutex holder ∧ σ this = some holder := by
  have hlock := h.object this
  generalize hm : s.object this = mMutex at hlock
  generalize hσ : σ this = holder at hlock
  cases hlock with
  | absent => exact absurd hm hobject
  | @present mutex holder hchecks => exact ⟨mutex, holder, rfl, hchecks, rfl⟩

omit [DecidableEq I] in
/-- An object changes, and so does its lock. -/
theorem Rep.set (h : Rep mutexType owner s σ) (this : H) {mMutex : Option (Option M)}
    {lock : Option (Option I)} (hlock : IsLock mutexType owner mMutex lock) :
    Rep mutexType owner { s with object := Function.update s.object this mMutex }
      (Function.update σ this lock) where
  object other := by
    show IsLock mutexType owner (Function.update s.object this mMutex other) _
    by_cases ho : other = this
    · rwa [ho, Function.update_self, Function.update_self]
    · rw [Function.update_of_ne ho, Function.update_of_ne ho]
      exact h.object other
  leaked := h.leaked

omit [DecidableEq I] in
/-- The holder stays. -/
theorem Rep.unchanged (h : Rep mutexType owner s σ) (this : H) {mutex : M} {holder : Option I}
    (hσ : σ this = some holder) (hchecks : Checks mutexType owner mutex holder) :
    Rep mutexType owner { s with object := Function.update s.object this (some (some mutex)) }
      σ := by
  have hrep := h.set this (.present hchecks)
  rwa [← hσ, Function.update_eq_self] at hrep

/-- A member function runs on the mutex of its object. -/
theorem onObject_eq {α : Type} {p : Prog (Option M) SystemError α} {mMutex mMutex' : Option M}
    {out : Outcome SystemError α} (hobject : s.object this = some mMutex)
    (hp : p mMutex = (out, mMutex')) : onObject this p s
      = (out, { s with object := Function.update s.object this (some mMutex') }) := by
  simp only [onObject, hobject, hp]

/-- Nobody destroys an object that is locked: `pthread.h` leaves that undefined. -/
def DestroysFree (owner : M → Option I) (s : World H M) (a : Event W I H) : Prop :=
  match a.1 with
  | .destruct this => (s.object this).join.bind owner = none
  | _ => True

instance (s : World H M) : (a : Event W I H) → Decidable (DestroysFree owner s a)
  | (.destruct this, _) => inferInstanceAs (Decidable ((s.object this).join.bind owner = none))
  | (.construct _ _, _) | (.lock _ _ _, _) | (.tryLock _ _ _, _) | (.unlock _ _ _, _) =>
      inferInstanceAs (Decidable True)

section Simulation

variable (hdoc : Documented P attrType mutexType owner) (h : Rep mutexType owner s σ)

include hdoc h

/-- The constructor makes a free lock, or nothing. -/
theorem Rep.construct (hnone : s.object this = none) (w : W)
    {out : Outcome SystemError (Option Bool)}
    (hexec : exec P (.construct this w) s = (out, s')) :
    ∃ σ', LockStep P σ (.construct this w, out) σ' ∧ Rep mutexType owner s' σ' := by
  have hσ := h.absent hnone
  rcases wp_cases (hdoc.construct_spec w) with
    ⟨_, hok, hattr, mutex, hmutex, hchecks⟩ | ⟨e, hthrew, hattr, herr, hwhat⟩
  · have hconstruct : constructAt P w this s = (.ok (),
        { s with object := Function.update s.object this (some (some mutex)) }) := by
      simp only [constructAt, hnone, hok, hattr, hmutex, if_pos, Option.isSome_none,
        Bool.false_eq_true, if_false, Nat.add_zero]
    obtain ⟨rfl, rfl⟩ := Prod.mk.inj ((bind_of_ok hconstruct).symm.trans hexec)
    exact ⟨_, .construct hσ, h.set this (.present hchecks)⟩
  · have hconstruct : constructAt P w this s = (.threw e, s) := by
      simp only [constructAt, hnone, hthrew, hattr, reduceCtorEq, if_false, Option.isSome_none,
        Bool.false_eq_true, Nat.add_zero]
      rw [← hnone, Function.update_eq_self]
    obtain ⟨rfl, rfl⟩ := Prod.mk.inj ((bind_of_threw hconstruct).symm.trans hexec)
    exact ⟨σ, .constructFails hσ herr hwhat, h⟩

/-- Every call does to the locks what it says. -/
theorem Rep.step {a : Event W I H} (hstep : (mutexes H P).step s a s')
    (hfree : DestroysFree owner s a) : ∃ σ', LockStep P σ a σ' ∧ Rep mutexType owner s' σ' := by
  obtain ⟨call, out⟩ := a
  obtain ⟨hproper, hexec, hreturns⟩ := hstep
  cases call with
  | construct this w => exact h.construct hdoc hproper w hexec
  | destruct this =>
      obtain ⟨mutex, holder, hobject, ⟨htype, rfl⟩, hσ⟩ := h.present hproper
      have hnobody : owner mutex = none := by
        have hjoin : (s.object this).join.bind owner = none := hfree
        rwa [hobject] at hjoin
      rw [hnobody] at hσ
      obtain ⟨err, herr⟩ := Option.isSome_iff_exists.mp (hdoc.destroy mutex htype hnobody)
      have hdestruct : destruct P this s
          = (.ok (), { s with object := Function.update s.object this none }) := by
        simp only [destruct, hobject, Option.join_some, Option.bind_some, herr]
      obtain ⟨rfl, rfl⟩ := Prod.mk.inj ((bind_of_ok hdestruct).symm.trans hexec)
      exact ⟨_, .destruct hσ, h.set this .absent⟩
  | lock t this w =>
      obtain ⟨mutex, holder, hobject, hchecks, hσ⟩ := h.present hproper
      rcases hdoc.lock_cases hchecks w t with
        ⟨rfl, mutex', hchecks', hlock⟩ | ⟨rfl, mutex', hchecks', hlock⟩ | ⟨u, -, -, hlock⟩
      · obtain ⟨rfl, rfl⟩ := Prod.mk.inj
          ((bind_of_ok (onObject_eq hobject hlock)).symm.trans hexec)
        exact ⟨_, .lock hσ, h.set this (.present hchecks')⟩
      · obtain ⟨rfl, rfl⟩ := Prod.mk.inj
          ((bind_of_threw (onObject_eq hobject hlock)).symm.trans hexec)
        exact ⟨σ, .lockTwice hσ, h.unchanged this hσ hchecks'⟩
      · obtain ⟨rfl, rfl⟩ := Prod.mk.inj
          ((bind_of_diverged (onObject_eq hobject hlock)).symm.trans hexec)
        exact absurd rfl hreturns
  | tryLock t this w =>
      obtain ⟨mutex, holder, hobject, hchecks, hσ⟩ := h.present hproper
      rcases hdoc.tryLock_cases hchecks w t with
        ⟨rfl, mutex', hchecks', htry⟩ | ⟨u, mutex', rfl, hchecks', htry⟩
      · obtain ⟨rfl, rfl⟩ := Prod.mk.inj
          ((bind_of_ok (onObject_eq hobject htry)).symm.trans hexec)
        exact ⟨_, .tryLock hσ, h.set this (.present hchecks')⟩
      · obtain ⟨rfl, rfl⟩ := Prod.mk.inj
          ((bind_of_ok (onObject_eq hobject htry)).symm.trans hexec)
        exact ⟨σ, .tryLockHeld hσ, h.unchanged this hσ hchecks'⟩
  | unlock t this w =>
      obtain ⟨mutex, holder, hobject, hchecks, hσ⟩ := h.present hproper
      rcases hdoc.unlock_cases hchecks w t with
        ⟨rfl, mutex', hchecks', hunlock⟩ | ⟨hother, mutex', hchecks', hunlock⟩
      · obtain ⟨rfl, rfl⟩ := Prod.mk.inj
          ((bind_of_ok (onObject_eq hobject hunlock)).symm.trans hexec)
        exact ⟨_, .unlock hσ, h.set this (.present hchecks')⟩
      · obtain ⟨rfl, rfl⟩ := Prod.mk.inj
          ((bind_of_threw (onObject_eq hobject hunlock)).symm.trans hexec)
        exact ⟨σ, .unlockOther hσ hother, h.unchanged this hσ hchecks'⟩

/-- A `lock()` waits exactly for another thread that holds the lock. -/
theorem Rep.waits_iff (hobject : s.object this ≠ none) (t : I) (w : W) :
    (exec P (.lock t this w) s).1 = .diverged ↔ ∃ u, u ≠ t ∧ σ this = some (some u) := by
  obtain ⟨mutex, holder, hsome, hchecks, hσ⟩ := h.present hobject
  rw [hσ]
  rcases hdoc.lock_cases hchecks w t with
    ⟨rfl, _, -, hlock⟩ | ⟨rfl, _, -, hlock⟩ | ⟨u, rfl, hut, hlock⟩
  · rw [show exec P (.lock t this w) s = _ from bind_of_ok (onObject_eq hsome hlock)]
    exact iff_of_false nofun nofun
  · rw [show exec P (.lock t this w) s = _ from bind_of_threw (onObject_eq hsome hlock)]
    refine iff_of_false nofun ?_
    rintro ⟨u, hut, hu⟩
    exact hut (Option.some.inj (Option.some.inj hu)).symm
  · rw [show exec P (.lock t this w) s = _ from bind_of_diverged (onObject_eq hsome hlock)]
    exact iff_of_true rfl ⟨u, hut, rfl⟩

omit h in
/-- **Every program uses its mutexes as locks.**  After any calls by any threads that
    destroy no locked object, whatever the calls of `pthread.h` in the constructors
    returned: each call has ended as it ends for locks, with the exceptions and texts of
    `LockStep` and no others; no attributes object has been lost; and the next `lock()`
    waits exactly if another thread holds the lock. -/
theorem runs_are_locks {as : List (Event W I H)}
    (hrun : Run ((mutexes H P).restrict (DestroysFree owner)) as s) :
    ∃ σ, Run (locks H P) as σ ∧ s.leaked = 0
      ∧ (∀ this, σ this = (s.object this).map fun mMutex => mMutex.bind owner)
      ∧ ∀ t this w, s.object this ≠ none →
        ((exec P (.lock t this w) s).1 = .diverged ↔ ∃ u, u ≠ t ∧ σ this = some (some u)) := by
  have hsim : Simulation ((mutexes H P).restrict (DestroysFree owner)) (locks H P)
      (Rep mutexType owner) := by
    refine ⟨?_, fun s σ a s' hrep hstep => hrep.step hdoc hstep.1 hstep.2⟩
    rintro _ rfl
    exact ⟨_, rfl, fun _ => .absent, rfl⟩
  obtain ⟨σ, hlocks, hrep⟩ := hsim.run hrun
  refine ⟨σ, hlocks, hrep.leaked, ?_, fun t this w hobject => hrep.waits_iff hdoc hobject t w⟩
  intro this
  by_cases hobject : s.object this = none
  · rw [hobject, hrep.absent hobject]
    rfl
  · obtain ⟨mutex, holder, hsome, ⟨-, rfl⟩, hσ⟩ := hrep.present hobject
    rw [hσ, hsome]
    rfl

end Simulation

/-! ## An example -/

/-- The calls on a mutex that checks for errors, as Linux does them; the environment says
    what the calls of the constructor return. -/
def errorChecking : Pthread (Int × Int × Int) Bool MutexType (MutexType × Option Bool) where
  mutexattrInit w := (w.1, .normal)
  mutexattrSettype w _ type := (w.2.1, type)
  mutexInit w attr := (w.2.2, (attr, none))
  mutexLock _ t mutex :=
    match mutex.2 with
    | none => some (0, (mutex.1, some t))
    | some u => if u = t then some (35, mutex) else none
  mutexTrylock _ t mutex :=
    match mutex.2 with
    | none => (0, (mutex.1, some t))
    | some _ => (16, mutex)
  mutexUnlock _ t mutex := if mutex.2 = some t then (0, (mutex.1, none)) else (1, mutex)
  mutexDestroy mutex := some (if mutex.2 = none then 0 else 16)
  EBUSY := 16
  EDEADLK := 35
  EPERM := 1

theorem errorChecking_documented : Documented errorChecking id Prod.fst Prod.snd where
  busy := by decide
  deadlk := by decide
  perm := by decide
  settype _ _ _ _ := rfl
  init _ _ _ := ⟨rfl, rfl⟩
  lock w t mutex htype := by
    obtain ⟨type, holder⟩ := mutex
    obtain rfl : type = .errorCheck := htype
    cases t <;> rcases holder with _ | _ | _ <;> rfl
  trylock w t mutex htype := by
    obtain ⟨type, holder⟩ := mutex
    obtain rfl : type = .errorCheck := htype
    cases t <;> rcases holder with _ | _ | _ <;> rfl
  unlock w t mutex htype := by
    obtain ⟨type, holder⟩ := mutex
    obtain rfl : type = .errorCheck := htype
    cases t <;> rcases holder with _ | _ | _ <;> rfl
  destroy _ _ _ := rfl

/-- No memory for the first constructor, and an object that is not used; then the two
    threads in each other's way. -/
def twoThreads : List (Event (Int × Int × Int) Bool Nat) :=
  [(.construct 0 (0, 0, 12), .threw ⟨12, "pthread_mutex_init"⟩),
    (.construct 0 (0, 0, 0), .ok none),
    (.destruct 0, .ok none),
    (.construct 0 (0, 0, 0), .ok none),
    (.lock true 0 (0, 0, 0), .ok none),
    (.tryLock false 0 (0, 0, 0), .ok (some false)),
    (.lock true 0 (0, 0, 0), .threw ⟨35, "pthread_mutex_lock"⟩),
    (.unlock false 0 (0, 0, 0), .threw ⟨1, "pthread_mutex_unlock"⟩),
    (.unlock true 0 (0, 0, 0), .ok none),
    (.tryLock false 0 (0, 0, 0), .ok (some true))]

theorem twoThreads_are_locks : ∃ σ s, Run (locks Nat errorChecking) twoThreads σ
    ∧ Run ((mutexes Nat errorChecking).restrict (DestroysFree Prod.snd)) twoThreads s
    ∧ s.leaked = 0
    ∧ (exec errorChecking (.lock true 0 (0, 0, 0)) s).1 = .diverged := by
  let next (s : World Nat (MutexType × Option Bool)) (a : Event (Int × Int × Int) Bool Nat) :
      Option (World Nat (MutexType × Option Bool)) :=
    if Proper s a.1 ∧ (exec errorChecking a.1 s).1 = a.2 ∧ a.2 ≠ .diverged
        ∧ DestroysFree Prod.snd s a then
      some (exec errorChecking a.1 s).2
    else none
  have hnext : ∀ s a s', next s a = some s' →
      ((mutexes Nat errorChecking).restrict (DestroysFree Prod.snd)).step s a s' := by
    intro s a s' h
    obtain ⟨⟨hproper, hends, hreturns, hfree⟩, hstate⟩ := Option.ite_none_right_eq_some.mp h
    exact ⟨⟨hproper, Prod.ext hends (Option.some.inj hstate), hreturns⟩, hfree⟩
  have hfollow : ∃ s, follow next ⟨fun _ => none, 0⟩ twoThreads = some s
      ∧ s.object 0 = some (some (.errorCheck, some false)) := ⟨_, rfl, rfl⟩
  obtain ⟨s, hfollow, hobject⟩ := hfollow
  have hrun := run_of_follow hnext rfl hfollow
  obtain ⟨σ, hlocks, hleaked, hholder, hwaits⟩ := runs_are_locks errorChecking_documented hrun
  have hpresent : s.object 0 ≠ none := by
    rw [hobject]
    exact Option.some_ne_none _
  refine ⟨σ, s, hlocks, hrun, hleaked, (hwaits true 0 _ hpresent).mpr ⟨false, by decide, ?_⟩⟩
  rw [hholder, hobject]
  rfl

end PThreadsMutex
