import Mathlib.Logic.Function.Basic
import CppPlayground.Lib.Program
import CppPlayground.Lib.System

/-! # `PThreadsMutex`

    `threading/pthreads_mutex.hpp`.  The functions of `pthread.h` are a parameter: each
    returns an error number, `0` for success, and changes the object it is given.  What
    their results depend on besides their arguments is the environment of a call.

    An attributes object or a mutex that is not initialised is `none`, and using it is
    undefined behaviour.  A call that waits for a mutex has no effect before it returns, and
    is a step of a program only then. -/

namespace PThreadsMutex

open Program Transition

variable {W I H A M : Type}

/-- `PTHREAD_MUTEX_NORMAL`, `PTHREAD_MUTEX_ERRORCHECK` and `PTHREAD_MUTEX_RECURSIVE` -/
inductive MutexType where
  | normal
  | errorCheck
  | recursive
  deriving DecidableEq, Repr

/-- The functions of `pthread.h` and the constants of `errno.h`, for threads `I`,
    attributes objects `A` and mutexes `M`; `mutexLock` gives `none` where it waits, and
    `mutexDestroy` where it is undefined behaviour. -/
structure Pthread (W I A M : Type) where
  mutexattrInit : W → Int × A
  mutexattrSettype : W → A → MutexType → Int × A
  mutexInit : W → A → Int × M
  mutexLock : W → I → M → Option (Int × M)
  mutexTrylock : W → I → M → Int × M
  mutexUnlock : W → I → M → Int × M
  mutexDestroy : M → Option Int
  EBUSY : Int
  EDEADLK : Int
  EPERM : Int

/-- `std::system_error(err, std::system_category(), what)` -/
structure SystemError where
  err : Int
  what : String
  deriving DecidableEq, Repr

/-! ## The constructor -/

/-- `m_mutex`, and the local `attr` of the constructor. -/
structure Members (A M : Type) where
  mMutex : Option M
  attr : Option A

/-- `pthread_mutexattr_init(&attr)` -/
def mutexattrInit (P : Pthread W I A M) (w : W) : Prog (Members A M) SystemError Int := fun s =>
  match s.attr with
  | some _ => (.undefined, s)
  | none =>
      let (err, attr) := P.mutexattrInit w
      (.ok err, { s with attr := if err = 0 then some attr else none })

/-- `pthread_mutexattr_settype(&attr, type)` -/
def mutexattrSettype (P : Pthread W I A M) (w : W) (type : MutexType) :
    Prog (Members A M) SystemError Int := fun s =>
  match s.attr with
  | none => (.undefined, s)
  | some attr =>
      let (err, attr') := P.mutexattrSettype w attr type
      (.ok err, { s with attr := some attr' })

/-- `pthread_mutex_init(&m_mutex, &attr)` -/
def mutexInit (P : Pthread W I A M) (w : W) : Prog (Members A M) SystemError Int := fun s =>
  match s.attr with
  | none => (.undefined, s)
  | some attr =>
      let (err, mutex) := P.mutexInit w attr
      (.ok err, { s with mMutex := if err = 0 then some mutex else none })

/-- `pthread_mutexattr_destroy(&attr)`, whose result nobody looks at. -/
def mutexattrDestroy : Prog (Members A M) SystemError Unit := fun s =>
  match s.attr with
  | none => (.undefined, s)
  | some _ => (.ok (), { s with attr := none })

/-- `if (int err = ...; err != 0) { throw std::system_error(err, ..., what); }` -/
def check {σ : Type} (what : String) (p : Prog σ SystemError Int) : Prog σ SystemError Unit := do
  let err ← p
  if err ≠ 0 then throwing ⟨err, what⟩ else pure ()

/-- `PThreadsMutex()` -/
def construct (P : Pthread W I A M) (w : W) : Prog (Members A M) SystemError Unit := do
  check "pthread_mutexattr_init" (mutexattrInit P w)
  cleaningUp mutexattrDestroy do
    check "pthread_mutexattr_settype" (mutexattrSettype P w .errorCheck)
    check "pthread_mutex_init" (mutexInit P w)
  mutexattrDestroy

/-! ## The other members -/

/-- `lock()` -/
def lock (P : Pthread W I A M) (w : W) (t : I) : Prog (Option M) SystemError Unit :=
  check "pthread_mutex_lock" fun mMutex =>
    match mMutex with
    | none => (.undefined, none)
    | some mutex =>
        match P.mutexLock w t mutex with
        | none => (.diverged, some mutex)
        | some (err, mutex') => (.ok err, some mutex')

/-- `try_lock()` -/
def tryLock (P : Pthread W I A M) (w : W) (t : I) : Prog (Option M) SystemError Bool := do
  let err ← fun mMutex =>
    match mMutex with
    | none => (.undefined, none)
    | some mutex =>
        let (err, mutex') := P.mutexTrylock w t mutex
        (.ok err, some mutex')
  if err = 0 then pure true
  else if err = P.EBUSY then pure false
  else throwing ⟨err, "pthread_mutex_trylock"⟩

/-- `unlock()` -/
def unlock (P : Pthread W I A M) (w : W) (t : I) : Prog (Option M) SystemError Unit :=
  check "pthread_mutex_unlock" fun mMutex =>
    match mMutex with
    | none => (.undefined, none)
    | some mutex =>
        let (err, mutex') := P.mutexUnlock w t mutex
        (.ok err, some mutex')

/-! ## Programs -/

/-- The `m_mutex` of every object that exists, and how many attributes objects have been
    left without being destroyed. -/
structure World (H M : Type) where
  object : H → Option (Option M)
  leaked : Nat

/-- The calls; all but the constructor and the destructor are made by a thread. -/
inductive Call (W I H : Type) where
  | construct (this : H) (w : W)
  | destruct (this : H)
  | lock (t : I) (this : H) (w : W)
  | tryLock (t : I) (this : H) (w : W)
  | unlock (t : I) (this : H) (w : W)
  deriving DecidableEq, Repr

/-- A call, and how it ended; only `try_lock` returns something. -/
abbrev Event (W I H : Type) : Type := Call W I H × Outcome SystemError (Option Bool)

variable [DecidableEq H]

/-- A member function of an object. -/
def onObject {α : Type} (this : H) (p : Prog (Option M) SystemError α) :
    Prog (World H M) SystemError α := fun s =>
  match s.object this with
  | none => (.undefined, s)
  | some mMutex =>
      ((p mMutex).1, { s with object := Function.update s.object this (some (p mMutex).2) })

/-- The constructor makes an object if it returns; an attributes object that is still
    initialised then is lost. -/
def constructAt (P : Pthread W I A M) (w : W) (this : H) : Prog (World H M) SystemError Unit :=
  fun s =>
    match s.object this with
    | some _ => (.undefined, s)
    | none =>
        let (out, members) := construct P w ⟨none, none⟩
        (out, {
          object := Function.update s.object this
            (if out = .ok () then some members.mMutex else none)
          leaked := s.leaked + if members.attr.isSome then 1 else 0 })

/-- `~PThreadsMutex()` ignores the result of `pthread_mutex_destroy`. -/
def destruct (P : Pthread W I A M) (this : H) : Prog (World H M) SystemError Unit := fun s =>
  match (s.object this).join.bind P.mutexDestroy with
  | none => (.undefined, s)
  | some _ => (.ok (), { s with object := Function.update s.object this none })

def exec (P : Pthread W I A M) : Call W I H → Prog (World H M) SystemError (Option Bool)
  | .construct this w => do constructAt P w this; pure none
  | .destruct this => do destruct P this; pure none
  | .lock t this w => do onObject this (lock P w t); pure none
  | .tryLock t this w => do
      let locked ← onObject this (tryLock P w t)
      pure (some locked)
  | .unlock t this w => do onObject this (unlock P w t); pure none

/-- The constructor is called for new objects, the other members of objects that exist. -/
def Proper (s : World H M) : Call W I H → Prop
  | .construct this _ => s.object this = none
  | .destruct this | .lock _ this _ | .tryLock _ this _ | .unlock _ this _ => s.object this ≠ none

instance (s : World H M) : (call : Call W I H) → Decidable (Proper s call)
  | .construct this _ => decidable_of_iff ((s.object this).isNone = true) Option.isNone_iff_eq_none
  | .destruct this | .lock _ this _ | .tryLock _ this _ | .unlock _ this _ =>
      decidable_of_iff ((s.object this).isSome = true) Option.isSome_iff_ne_none

/-- All interleavings of calls by any threads; a call that waits is not a step yet. -/
def mutexes (H : Type) [DecidableEq H] (P : Pthread W I A M) :
    System (World H M) (Event W I H) where
  init s := s = ⟨fun _ => none, 0⟩
  step s a s' := Proper s a.1 ∧ exec P a.1 s = (a.2, s') ∧ a.2 ≠ .diverged

end PThreadsMutex
