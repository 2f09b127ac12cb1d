import Mathlib.Logic.Function.Basic
import CppPlayground.Lib.System

/-! # `Function`: a wrapper of callables

    `functional/function.hpp`.  A constructor or an assignment is found by overload
    resolution, among the special members and the template that accepts anything.  The
    `Callable` that the template makes constructs its `m_function` in the same way, so
    that a `Function` inside of a `Function` is a question for overload resolution
    again.  Such constructions may be nested at most as deep as a parameter says.

    A callable may answer differently as an lvalue or an rvalue, const or not; a wrapper
    always calls the decayed copy that it stores, as a non-const lvalue.  Callables may
    share state, such as what a lambda captures by reference.

    Memory is not short here, and the constructors of the callables do not throw and leave
    the shared state alone. -/

namespace Functional

open Transition

variable {ι Sig S A R X M : Type}

/-- How an argument is passed: as an lvalue or as an rvalue, and its qualifiers. -/
structure Ref where
  lvalue : Bool
  const : Bool
  volatile : Bool
  deriving DecidableEq, Repr

/-- `m_function` in the call of a `Callable` -/
def Ref.stored : Ref := ⟨true, false, false⟩

/-- Something to call: a callable of any other type, or a `Function<sig>`.  The `m_callable`
    of that is null, or owns a `Callable` with its `m_function`. -/
inductive Value (Sig S : Type) where
  | plain (s : S)
  | empty (sig : Sig)
  | holding (sig : Sig) (mFunction : Value Sig S)
  deriving DecidableEq, Repr

/-- The signature, if the type is a `Function`. -/
def Value.signature : Value Sig S → Option Sig
  | .plain _ => none
  | .empty sig => some sig
  | .holding sig _ => some sig

/-- `std::bad_function_call`, or what a callable throws. -/
inductive Thrown (X : Type) where
  | badFunctionCall
  | other (x : X)
  deriving DecidableEq, Repr

/-- What a call returns or throws. -/
abbrev Answer (R X : Type) : Type := Except (Thrown X) R

/-- What the callables of a program do, and which of its constructions compile; `M` is what
    they share. -/
structure Callables (Sig S A R X M : Type) where
  /-- a call of a callable that is not a `Function`, as an expression of this kind, and what
      it leaves -/
  invoke : Ref → S → A × M → (Answer R X × M) × S
  /-- the decayed copy of an argument passed so, if it can be constructed -/
  decay : Ref → S → Option S
  /-- whether such an expression can be called with the arguments of a signature -/
  invocable : Sig → Ref → S → Bool
  /-- whether a `Function` of the second signature can be called like that -/
  compatible : Sig → Sig → Bool
  /-- the arguments, converted to the parameter types of a signature -/
  pass : Sig → A → A
  /-- the result, converted to the return type of a signature -/
  convert : Sig → R → R

/-- Why an operation does not come to its end. -/
inductive Failure where
  | illFormed
  | tooDeep
  | noObject
  deriving DecidableEq, Repr

/-! ## Construction -/

/-- What overload resolution chooses from: `Function(Function &&)`,
    `Function(const Function &)`, which is deleted, and `Function(U &&)`; the assignment
    operators are the same. -/
inductive Candidate where
  | move
  | deletedCopy
  | template
  deriving DecidableEq, Repr

/-- Overload resolution; `same` says that the argument is a `Function` of the same
    signature.  The template binds every argument exactly. -/
def select (same : Bool) (ref : Ref) : Candidate :=
  -- neither special member can bind it
  if !same || ref.volatile then .template
  else if ref.lvalue then
    -- `const Function &` adds a qualifier if there is none; if there is one, it is as good
    -- as the template and not a template
    if ref.const then .deletedCopy else .template
  else
    -- of a const rvalue the template makes a `const Function &&`, which is better than
    -- `const Function &`; `Function &&` is as good as the template
    if ref.const then .template else .move

/-- What `std::unique_ptr` leaves of a `Function` that is moved from. -/
def Value.movedFrom : Value Sig S → Value Sig S
  | .plain s => .plain s
  | .empty sig => .empty sig
  | .holding sig _ => .empty sig

variable [DecidableEq Sig]

/-- `std::make_unique<Callable<std::decay_t<U>>>(std::forward<U>(function))` in a
    `Function<sig>`: the `m_function`, and what is left of the argument.  `construct` makes
    an `m_function` that is a `Function`; what a move leaves of other callables is not
    followed. -/
def makeCallable (E : Callables Sig S A R X M)
    (construct : Sig → Except Failure (Value Sig S × Value Sig S)) (ref : Ref) (sig : Sig) :
    Value Sig S → Except Failure (Value Sig S × Value Sig S)
  | .plain s =>
      match E.decay ref s with
      | none => .error .illFormed
      | some s' =>
          if E.invocable sig .stored s' then .ok (.plain s', .plain s) else .error .illFormed
  | .empty sig' => if E.compatible sig sig' then construct sig' else .error .illFormed
  | .holding sig' _ => if E.compatible sig sig' then construct sig' else .error .illFormed

/-- `Function<sig>(u)`: the new object, and what is left of `u`. -/
def construct (E : Callables Sig S A R X M) (ref : Ref) (u : Value Sig S) :
    Nat → Sig → Except Failure (Value Sig S × Value Sig S)
  | 0, _ => .error .tooDeep
  | depth + 1, sig =>
      match select (u.signature = some sig) ref with
      | .move => .ok (u, u.movedFrom)
      | .deletedCopy => .error .illFormed
      | .template => do
          let (mFunction, left) ← makeCallable E (construct E ref u depth) ref sig u
          pure (.holding sig mFunction, left)

/-- `*this = u`, of a `Function<sig>`: what becomes of `*this`, and what is left of `u`. -/
def assign (E : Callables Sig S A R X M) (depth : Nat) (ref : Ref) (sig : Sig) (u : Value Sig S) :
    Except Failure (Value Sig S × Value Sig S) :=
  match select (u.signature = some sig) ref with
  | .move => .ok (u, u.movedFrom)
  | .deletedCopy => .error .illFormed
  | .template => do
      let (mFunction, left) ← makeCallable E (construct E ref u depth) ref sig u
      pure (.holding sig mFunction, left)

/-! ## Calls -/

/-- A call of any of them, through `operator()`, `invoke` and `std::invoke`: what comes of
    it, and what it leaves. -/
def call (E : Callables Sig S A R X M) : Value Sig S → A × M → (Answer R X × M) × Value Sig S
  | .plain s, args =>
      let r := E.invoke .stored s args
      (r.1, .plain r.2)
  | .empty sig, args => ((.error .badFunctionCall, args.2), .empty sig)
  | .holding sig mFunction, args =>
      let r := call E mFunction (E.pass sig args.1, args.2)
      ((r.1.1.map (E.convert sig), r.1.2), .holding sig r.2)

/-! ## Programs -/

/-- The `Function` objects that exist, and what the callables share. -/
structure World (ι Sig S M : Type) where
  functions : ι → Option (Value Sig S)
  shared : M

/-- What a constructor or an assignment is given. -/
inductive Arg (ι S : Type) where
  | callable (s : S)
  | object (other : ι)
  deriving DecidableEq, Repr

/-- The operations of the class, and `share`, by which the rest of the program changes what
    the callables share. -/
inductive Op (ι Sig S A M : Type) where
  | default (this : ι) (sig : Sig)
  | construct (this : ι) (sig : Sig) (ref : Ref) (u : Arg ι S)
  | assign (this : ι) (ref : Ref) (u : Arg ι S)
  | invoke (this : ι) (args : A)
  | destruct (this : ι)
  | share (shared : M)
  deriving DecidableEq, Repr

/-- An operation, and what came of a call. -/
abbrev Event (ι Sig S A R X M : Type) : Type := Op ι Sig S A M × Option (Answer R X)

/-- An object that must exist. -/
def World.object (w : World ι Sig S M) (this : ι) : Except Failure (Value Sig S) :=
  match w.functions this with
  | none => .error .noObject
  | some v => .ok v

/-- The place of a new object. -/
def World.unused (w : World ι Sig S M) (this : ι) : Except Failure Unit :=
  match w.functions this with
  | none => .ok ()
  | some _ => .error .noObject

/-- The value of an argument. -/
def World.arg (w : World ι Sig S M) : Arg ι S → Except Failure (Value Sig S)
  | .callable s => .ok (.plain s)
  | .object other => w.object other

variable [DecidableEq ι]

def World.put (w : World ι Sig S M) (this : ι) (v : Option (Value Sig S)) : World ι Sig S M :=
  { w with functions := Function.update w.functions this v }

/-- What is left of an argument. -/
def World.leave (w : World ι Sig S M) (left : Value Sig S) : Arg ι S → World ι Sig S M
  | .callable _ => w
  | .object other => w.put other (some left)

/-- The signature of an object, which is that of its type. -/
def World.signature (w : World ι Sig S M) (this : ι) : Except Failure Sig := do
  let v ← w.object this
  match v.signature with
  | none => .error .noObject
  | some sig => pure sig

/-- An operation, and what comes of it if it is a call.  An object that is moved to itself
    is left empty and then given back what it held. -/
def exec (E : Callables Sig S A R X M) (depth : Nat) (w : World ι Sig S M) :
    Op ι Sig S A M → Except Failure (World ι Sig S M × Option (Answer R X))
  | .default this sig => do
      w.unused this
      pure (w.put this (some (.empty sig)), none)
  | .construct this sig ref u => do
      w.unused this
      let v ← w.arg u
      let (made, left) ← construct E ref v depth sig
      pure ((w.leave left u).put this (some made), none)
  | .assign this ref u => do
      let sig ← w.signature this
      let v ← w.arg u
      let (made, left) ← assign E depth ref sig v
      pure ((w.leave left u).put this (some made), none)
  | .invoke this args => do
      let v ← w.object this
      let r := call E v (args, w.shared)
      pure ({ w.put this (some r.2) with shared := r.1.2 }, some r.1.1)
  | .destruct this => do
      let _ ← w.object this
      pure (w.put this none, none)
  | .share shared => pure ({ w with shared }, none)

/-- The runs of a program; the constructions of its steps come to an end at some depth. -/
def functions (ι : Type) [DecidableEq ι] (E : Callables Sig S A R X M) :
    System (World ι Sig S M) (Event ι Sig S A R X M) where
  init w := w.functions = fun _ => none
  step w a w' := ∃ depth, exec E depth w a.1 = .ok (w', a.2)

end Functional
