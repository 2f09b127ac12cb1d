import Mathlib.Data.Finset.Insert
import Mathlib.Data.Finset.Prod
import CppPlayground.Lib.CriticalSections
import CppPlayground.PThreadsMutex.Locks

/-! # `PThreadsMutex` guards what its clients use

    A thread knows that it has locked an object from how its own calls have ended: `lock()`
    has returned, or `try_lock()` has returned true, and no `unlock()` since.  Clients that
    use the data an object guards only then are never two at a time, and all uses are
    ordered by happens-before: a pthread mutex that is locked synchronises with whoever has
    unlocked it before. -/

namespace PThreadsMutex

open Program Transition Events CriticalSections

variable {W I H A M : Type}

/-- What a thread does: a call, or a use of the data that an object guards. -/
inductive Deed (W I H : Type) where
  | call (a : Event W I H)
  | use (this : H)

structure Act (W I H : Type) where
  thread : I
  deed : Deed W I H

/-- Whose call it is; any thread may construct and destroy objects. -/
def Call.By (t : I) : Call W I H → Prop
  | .construct _ _ | .destruct _ => True
  | .lock u _ _ | .tryLock u _ _ | .unlock u _ _ => u = t

instance [DecidableEq I] (t : I) : (call : Call W I H) → Decidable (call.By t)
  | .construct _ _ | .destruct _ => inferInstanceAs (Decidable True)
  | .lock u _ _ | .tryLock u _ _ | .unlock u _ _ => inferInstanceAs (Decidable (u = t))

/-- The objects, and who knows of which that it has locked them. -/
structure Clients (I H M : Type) where
  world : World H M
  holds : Finset (I × H)

variable [DecidableEq I] [DecidableEq H]

/-- What a call that ends so has to do with an object. -/
def callKind (this : H) : Event W I H → Kind
  | (.lock _ other _, .ok _) | (.tryLock _ other _, .ok (some true)) =>
      if other = this then .acquire else .other
  | (.unlock _ other _, .ok _) => if other = this then .release else .other
  | _ => .other

def Act.kind (this : H) (x : Act W I H) : Kind :=
  match x.deed with
  | .call a => callKind this a
  | .use other => if other = this then .access else .other

/-- Events of one thread are ordered, and locking an object synchronises with whoever has
    unlocked it before; two objects, one after the other in one place, are ordered by the
    callers of the destructor and the constructor. -/
def Synchronises (x y : Act W I H) : Prop :=
  x.thread = y.thread ∨ ∃ this, x.kind this = .release ∧ y.kind this = .acquire

/-- What a thread knows after a call of its own. -/
def holdsAfter (holds : Finset (I × H)) (t : I) : Event W I H → Finset (I × H)
  | (.lock _ this _, .ok _) | (.tryLock _ this _, .ok (some true)) => insert (t, this) holds
  | (.unlock _ this _, .ok _) => holds.erase (t, this)
  | _ => holds

/-- All interleavings of calls and uses.  Nobody destroys an object that is locked, and
    nobody uses what an object guards without having locked it. -/
def clients (H : Type) [DecidableEq H] (P : Pthread W I A M) :
    System (Clients I H M) (Act W I H) where
  init s := (mutexes H P).init s.world ∧ s.holds = ∅
  step s x s' :=
    match x.deed with
    | .call a => a.1.By x.thread ∧ (∀ k ∈ s.holds, a.1 ≠ .destruct k.2)
        ∧ (mutexes H P).step s.world a s'.world ∧ s'.holds = holdsAfter s.holds x.thread a
    | .use this => (x.thread, this) ∈ s.holds ∧ s' = s

/-! ## Calls -/

section Calls

variable {P : Pthread W I A M} {σ σ' : Locks H I} {a : Event W I H} {t : I}
  {holds : Finset (I × H)}

/-- What the clients know of the locks: all there is to know. -/
def Knows (holds : Finset (I × H)) (σ : Locks H I) : Prop :=
  ∀ t this, (t, this) ∈ holds ↔ σ this = some (some t)

theorem Knows.lock (h : Knows holds σ) {this : H} (hσ : σ this = some none) :
    Knows (insert (t, this) holds) (Function.update σ this (some (some t))) := by
  intro u o
  rw [Finset.mem_insert, h u o, Prod.mk.injEq]
  by_cases ho : o = this
  · subst ho
    rw [Function.update_self, hσ]
    constructor
    · rintro (⟨rfl, -⟩ | hno)
      · rfl
      · cases hno
    · intro heq
      exact Or.inl ⟨(Option.some.inj (Option.some.inj heq)).symm, rfl⟩
  · rw [Function.update_of_ne ho]
    exact ⟨fun hu => hu.resolve_left fun heq => ho heq.2, Or.inr⟩

theorem Knows.unlock (h : Knows holds σ) {this : H} (hσ : σ this = some (some t)) :
    Knows (holds.erase (t, this)) (Function.update σ this (some none)) := by
  intro u o
  rw [Finset.mem_erase, h u o, ne_eq, Prod.mk.injEq]
  by_cases ho : o = this
  · subst ho
    rw [Function.update_self, hσ]
    refine iff_of_false ?_ nofun
    rintro ⟨hne, heq⟩
    exact hne ⟨(Option.some.inj (Option.some.inj heq)).symm, rfl⟩
  · rw [Function.update_of_ne ho]
    exact ⟨And.right, fun hu => ⟨fun heq => ho heq.2, hu⟩⟩

omit [DecidableEq I] in
/-- A lock that nobody holds comes or goes. -/
theorem Knows.free (h : Knows holds σ) {this : H} {lock : Option (Option I)}
    (hσ : (σ this).join = none) (hlock : lock.join = none) :
    Knows holds (Function.update σ this lock) := by
  intro u o
  rw [h u o]
  by_cases ho : o = this
  · subst ho
    rw [Function.update_self]
    refine iff_of_false ?_ ?_
    · intro heq
      rw [heq] at hσ
      cases hσ
    · rintro rfl
      cases hlock
  · rw [Function.update_of_ne ho]

omit [DecidableEq I] in
/-- One lock changes, in its turn. -/
theorem turn_update {o : H} {k : Kind} {lock : Option (Option I)}
    (hturn : Turn t k (σ o).join lock.join) (this : H) :
    Turn t (if o = this then k else .other) (σ this).join (Function.update σ o lock this).join := by
  by_cases ho : o = this
  · subst ho
    rwa [if_pos rfl, Function.update_self]
  · rw [if_neg ho, Function.update_of_ne (Ne.symm ho)]
    exact .other

omit [DecidableEq I] in
theorem turn_free {o : H} {lock : Option (Option I)} (hσ : (σ o).join = none)
    (hlock : lock.join = none) (this : H) :
    Turn t .other (σ this).join (Function.update σ o lock this).join := by
  have hturn : Turn t .other (σ o).join lock.join := by
    rw [hσ, hlock]
    exact .other
  have hupdate := turn_update hturn this
  rwa [ite_self] at hupdate

omit [DecidableEq I] [DecidableEq H] in
/-- An object that nobody knows to be locked is free. -/
theorem Rep.destroysFree {mutexType : M → MutexType} {owner : M → Option I} {s : World H M}
    (hrep : Rep mutexType owner s σ) (hknows : Knows holds σ)
    (hdestroy : ∀ k ∈ holds, a.1 ≠ .destruct k.2) : DestroysFree owner s a := by
  obtain ⟨call, out⟩ := a
  cases call with
  | destruct o =>
      show (s.object o).join.bind owner = none
      by_cases hobject : s.object o = none
      · rw [hobject]
        rfl
      · obtain ⟨mutex, holder, hsome, ⟨-, rfl⟩, hσ⟩ := hrep.present hobject
        rw [hsome]
        cases howner : owner mutex with
        | none => exact howner
        | some u =>
            rw [howner] at hσ
            exact absurd rfl (hdestroy (u, o) ((hknows u o).mpr hσ))
  | _ => trivial

/-- A call keeps to the locks, and its thread knows what it has done. -/
theorem LockStep.client (hstep : LockStep P σ a σ') (hby : a.1.By t) (hknows : Knows holds σ) :
    (∀ this, Turn t (callKind this a) (σ this).join (σ' this).join)
      ∧ Knows (holdsAfter holds t a) σ' := by
  cases hstep with
  | @construct o w hσ =>
      have hfree : (σ o).join = none := by rw [hσ]; rfl
      exact ⟨turn_free hfree rfl, hknows.free hfree rfl⟩
  | @destruct o hσ =>
      have hfree : (σ o).join = none := by rw [hσ]; rfl
      exact ⟨turn_free hfree rfl, hknows.free hfree rfl⟩
  | @lock u o w hσ =>
      obtain rfl : u = t := hby
      refine ⟨turn_update ?_, hknows.lock hσ⟩
      rw [hσ]
      exact .acquire
  | @tryLock u o w hσ =>
      obtain rfl : u = t := hby
      refine ⟨turn_update ?_, hknows.lock hσ⟩
      rw [hσ]
      exact .acquire
  | @unlock u o w hσ =>
      obtain rfl : u = t := hby
      refine ⟨turn_update ?_, hknows.unlock hσ⟩
      rw [hσ]
      exact .release
  | _ => exact ⟨fun _ => .other, hknows⟩

end Calls

/-! ## Whole runs -/

section Runs

variable {P : Pthread W I A M} {attrType : A → MutexType} {mutexType : M → MutexType}
  {owner : M → Option I} {tr : List (Act W I H)} {s : Clients I H M}

/-- The uses of every object are in critical sections of its lock. -/
theorem run_guarded (hdoc : Documented P attrType mutexType owner) (h : Run (clients H P) tr s) :
    ∃ σ, Rep mutexType owner s.world σ ∧ Knows s.holds σ
      ∧ ∀ this, Guarded Synchronises Act.thread (Act.kind this) tr (σ this).join := by
  refine Run.invariant (I := fun tr s => ∃ σ, Rep mutexType owner s.world σ ∧ Knows s.holds σ
    ∧ ∀ this, Guarded Synchronises Act.thread (Act.kind this) tr (σ this).join) ?_ ?_ h
  · rintro ⟨world, holds⟩ ⟨rfl, rfl⟩
    exact ⟨fun _ => none, ⟨fun _ => .absent, rfl⟩,
      fun _ _ => iff_of_false (Finset.notMem_empty _) nofun, fun _ => guarded_nil⟩
  · rintro tr s ⟨t, deed⟩ s' - ⟨σ, hrep, hknows, hguarded⟩ hstep
    have hsync : ∀ this (x y : Act W I H), x.kind this = .release → y.kind this = .acquire →
        Synchronises x y := fun this _ _ hx hy => Or.inr ⟨this, hx, hy⟩
    cases deed with
    | call a =>
        obtain ⟨hby, hdestroy, hcall, hholds⟩ := hstep
        obtain ⟨σ', hlock, hrep'⟩ := hrep.step hdoc hcall (hrep.destroysFree hknows hdestroy)
        obtain ⟨hturn, hknows'⟩ := hlock.client hby hknows
        refine ⟨σ', hrep', ?_, fun this => ?_⟩
        · rwa [hholds]
        · exact (hguarded this).snoc (fun _ _ => Or.inl) (hsync this) (hturn this)
    | use o =>
        obtain ⟨hmem, rfl⟩ := hstep
        refine ⟨σ, hrep, hknows, fun this => (hguarded this).snoc (fun _ _ => Or.inl)
          (hsync this) ?_⟩
        by_cases ho : o = this
        · subst ho
          show Turn t (if o = o then .access else .other) (σ o).join (σ o).join
          rw [if_pos rfl, (hknows t o).mp hmem]
          exact .access
        · show Turn t (if o = this then .access else .other) (σ this).join (σ this).join
          rw [if_neg ho]
          exact .other

/-- **What clients get.**  For any threads and objects, in every interleaving of calls and
    uses, whatever the calls in the constructors return: no two threads know of one object
    that they have locked it, and any two uses of what it guards are ordered by
    happens-before. -/
theorem uses_in_order (hdoc : Documented P attrType mutexType owner)
    (h : Run (clients H P) tr s) :
    (∀ t u this, (t, this) ∈ s.holds → (u, this) ∈ s.holds → t = u)
      ∧ ∀ this i j x y, tr[i]? = some x → tr[j]? = some y → x.deed = .use this →
        y.deed = .use this → i < j → Before Synchronises tr i j := by
  obtain ⟨σ, -, hknows, hguarded⟩ := run_guarded hdoc h
  constructor
  · intro t u this ht hu
    have heq := ((hknows t this).mp ht).symm.trans ((hknows u this).mp hu)
    exact Option.some.inj (Option.some.inj heq)
  · intro this i j x y hx hy hxu hyu hij
    have haccess : ∀ z : Act W I H, z.deed = .use this → z.kind this = .access := by
      intro z hz
      rw [Act.kind, hz]
      exact if_pos rfl
    exact (hguarded this).ordered i j x y hx hy (haccess x hxu) (haccess y hyu) hij

end Runs

/-- Two threads that use what an object guards; the second one has to try twice. -/
def twoUses : List (Act (Int × Int × Int) Bool Nat) :=
  [⟨true, .call (.construct 0 (0, 0, 0), .ok none)⟩,
    ⟨true, .call (.lock true 0 (0, 0, 0), .ok none)⟩, ⟨true, .use 0⟩,
    ⟨false, .call (.tryLock false 0 (0, 0, 0), .ok (some false))⟩,
    ⟨true, .call (.unlock true 0 (0, 0, 0), .ok none)⟩,
    ⟨false, .call (.tryLock false 0 (0, 0, 0), .ok (some true))⟩, ⟨false, .use 0⟩]

theorem twoUses_in_order : ∃ s, Run (clients Nat errorChecking) twoUses s
    ∧ Before Synchronises twoUses 2 6 := by
  let next (s : Clients Bool Nat (MutexType × Option Bool)) (x : Act (Int × Int × Int) Bool Nat) :
      Option (Clients Bool Nat (MutexType × Option Bool)) :=
    match x.deed with
    | .call a =>
        if a.1.By x.thread ∧ (∀ k ∈ s.holds, a.1 ≠ .destruct k.2) ∧ Proper s.world a.1
            ∧ (exec errorChecking a.1 s.world).1 = a.2 ∧ a.2 ≠ .diverged then
          some ⟨(exec errorChecking a.1 s.world).2, holdsAfter s.holds x.thread a⟩
        else none
    | .use this => if (x.thread, this) ∈ s.holds then some s else none
  have hnext : ∀ s x s', next s x = some s' → (clients Nat errorChecking).step s x s' := by
    rintro s ⟨t, deed⟩ s' h
    cases deed with
    | call a =>
        obtain ⟨⟨hby, hdestroy, hproper, hends, hreturns⟩, hsome⟩ :=
          Option.ite_none_right_eq_some.mp h
        obtain rfl := Option.some.inj hsome
        exact ⟨hby, hdestroy, ⟨hproper, Prod.ext hends rfl, hreturns⟩, rfl⟩
    | use this =>
        obtain ⟨hmem, hsame⟩ := Option.ite_none_right_eq_some.mp h
        exact ⟨hmem, (Option.some.inj hsame).symm⟩
  obtain ⟨s, hfollow⟩ : ∃ s, follow next ⟨⟨fun _ => none, 0⟩, ∅⟩ twoUses = some s := ⟨_, rfl⟩
  have h0 : (clients Nat errorChecking).init ⟨⟨fun _ => none, 0⟩, ∅⟩ := ⟨rfl, rfl⟩
  have hrun := run_of_follow hnext h0 hfollow
  have hordered := (uses_in_order errorChecking_documented hrun).2 0
  exact ⟨s, hrun, hordered 2 6 _ _ rfl rfl rfl rfl (by decide)⟩

end PThreadsMutex
