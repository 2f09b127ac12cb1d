import CppPlayground.Lib.Behaviour
import CppPlayground.Functional.Model

/-! # A `Function` means what it wraps, if its construction ends

    What a wrapper is for is said by its signature and its behaviour, with the state that
    the callables share as part of every call and of every answer.  Construction gives a
    wrapper the behaviour of its argument, moves carry it along, and a call answers by it.

    The behaviour of an argument that is not a `Function` is that of the expression that was
    passed.  The wrapper calls a decayed copy instead, as a non-const lvalue, and
    `AnswersAlike` says where this makes no difference. -/

namespace Functional

open Transition Reactive

variable {ι Sig S A R X M : Type}

/-! ## The wrappers as their users see them -/

/-- What comes of calls, after the earlier ones. -/
abbrev Meaning (A R X M : Type) : Type := Behaviour (A × M) (Answer R X × M)

/-- A signature, and what comes of calls. -/
structure Wrapper (Sig A R X M : Type) where
  sig : Sig
  meaning : Meaning A R X M

/-- A wrapper of nothing. -/
def Wrapper.none (sig : Sig) : Wrapper Sig A R X M :=
  ⟨sig, .always fun args => (.error .badFunctionCall, args.2)⟩

/-- The meaning of something, called with the arguments and for the result of a
    signature. -/
def converted (E : Callables Sig S A R X M) (sig : Sig) (b : Meaning A R X M) :
    Meaning A R X M :=
  b.translate (fun args => (E.pass sig args.1, args.2))
    (fun r => (r.1.map (E.convert sig), r.2))

/-- The meaning of a callable that is called as an expression of this kind. -/
def called (E : Callables Sig S A R X M) (sig : Sig) (ref : Ref) (s : S) : Meaning A R X M :=
  converted E sig (behaviour (E.invoke ref) s)

/-- If the expression can be called, its decayed copy answers as it does when it is called
    as a non-const lvalue. -/
def AnswersAlike (E : Callables Sig S A R X M) (sig : Sig) (ref : Ref) (s : S) : Prop :=
  E.invocable sig ref s = true → ∀ s', E.decay ref s = some s' →
    called E sig .stored s' = called E sig ref s

/-- Neither an lvalue nor const nor volatile. -/
def Ref.isPlainRvalue (ref : Ref) : Bool := !ref.lvalue && !ref.const && !ref.volatile

/-- What is left of a wrapper that has been passed so and wrapped. -/
def Wrapper.left (ref : Ref) (k : Wrapper Sig A R X M) : Wrapper Sig A R X M :=
  if ref.isPlainRvalue then .none k.sig else k

/-- The wrappers that exist, and what the callables share. -/
structure Wrappers (ι Sig A R X M : Type) where
  wrappers : ι → Option (Wrapper Sig A R X M)
  shared : M

variable {E : Callables Sig S A R X M}

/-! ## What the objects mean -/

/-- The wrapper that a `Function` is. -/
def wrapper (E : Callables Sig S A R X M) (v : Value Sig S) : Option (Wrapper Sig A R X M) :=
  v.signature.map fun sig => ⟨sig, behaviour (call E) v⟩

/-- The wrappers that the objects are. -/
def meaning (E : Callables Sig S A R X M) (w : World ι Sig S M) : Wrappers ι Sig A R X M :=
  ⟨(fun v => v.bind (wrapper E)) ∘ w.functions, w.shared⟩

theorem behaviour_plain (s : S) :
    behaviour (call E) (.plain s : Value Sig S) = behaviour (E.invoke .stored) s := by
  have h : behaviour (call E) (.plain s : Value Sig S)
      = (behaviour (E.invoke .stored) s).translate id id :=
    behaviour_translate (h := Value.plain) (fun _ _ => rfl) s
  rw [h]
  funext earlier a
  exact congrArg (behaviour (E.invoke .stored) s · a) (List.map_id earlier)

theorem wrapper_empty (sig : Sig) :
    wrapper E (.empty sig : Value Sig S) = some (.none sig) := by
  have h : behaviour (call E) (.empty sig)
      = .always fun args => (.error .badFunctionCall, args.2) :=
    behaviour_always fun _ => rfl
  show some (Wrapper.mk sig (behaviour (call E) (.empty sig))) = _
  rw [h]
  rfl

/-- A wrapper hands its calls on. -/
theorem wrapper_holding (sig : Sig) (f : Value Sig S) :
    wrapper E (.holding sig f) = some ⟨sig, converted E sig (behaviour (call E) f)⟩ := by
  have h : behaviour (call E) (.holding sig f) = converted E sig (behaviour (call E) f) :=
    behaviour_translate (h := Value.holding sig) (fun _ _ => rfl) f
  show some (Wrapper.mk sig (behaviour (call E) (.holding sig f))) = _
  rw [h]

theorem signature_of_wrapper {v : Value Sig S} {k : Wrapper Sig A R X M}
    (h : wrapper E v = some k) : v.signature = some k.sig := by
  obtain ⟨sig, hsig, rfl⟩ := Option.map_eq_some_iff.mp h
  exact hsig

theorem wrapper_of_signature {v : Value Sig S} {sig : Sig} (hsig : v.signature = some sig) :
    wrapper E v = some ⟨sig, behaviour (call E) v⟩ := by
  rw [wrapper, hsig]
  rfl

theorem meaning_of_none {w : World ι Sig S M} {this : ι} (h : w.functions this = none) :
    (meaning E w).wrappers this = none := congrArg (Option.bind · (wrapper E)) h

theorem meaning_of_some {w : World ι Sig S M} {this : ι} {v : Value Sig S}
    (h : w.functions this = some v) : (meaning E w).wrappers this = wrapper E v := by
  show (w.functions this).bind (wrapper E) = _
  rw [h, Option.bind_some]

/-- A call does what the meaning says, and leaves what the meaning leaves. -/
theorem wrapper_call {v : Value Sig S} {sig : Sig} (hsig : v.signature = some sig)
    (args : A × M) :
    wrapper E (call E v args).2 = some ⟨sig, (behaviour (call E) v).after args⟩ := by
  have hafter : (call E v args).2.signature = some sig := by
    cases v with
    | plain s => cases hsig
    | empty sig' => exact hsig
    | holding sig' f => exact hsig
  rw [wrapper_of_signature hafter, behaviour_after]

/-! ## The system of wrappers -/

section System

variable [DecidableEq ι]

def Wrappers.put (w : Wrappers ι Sig A R X M) (this : ι) (k : Option (Wrapper Sig A R X M)) :
    Wrappers ι Sig A R X M := { w with wrappers := Function.update w.wrappers this k }

theorem meaning_put (w : World ι Sig S M) (this : ι) (v : Option (Value Sig S)) :
    meaning E (w.put this v) = (meaning E w).put this (v.bind (wrapper E)) :=
  congrArg (Wrappers.mk · w.shared) (Function.comp_update _ _ _ _)

variable [DecidableEq Sig]

/-- What a new or assigned wrapper of a signature takes over from another one. -/
def Wrapper.taken (E : Callables Sig S A R X M) (sig : Sig) (k : Wrapper Sig A R X M) :
    Wrapper Sig A R X M := if k.sig = sig then k else ⟨sig, converted E sig k.meaning⟩

/-- The steps of the wrappers.  A wrapper of something that can be called answers as that
    does. -/
inductive Step (E : Callables Sig S A R X M) (w : Wrappers ι Sig A R X M) :
    Event ι Sig S A R X M → Wrappers ι Sig A R X M → Prop where
  | default {this : ι} {sig : Sig} : w.wrappers this = none →
      Step E w (.default this sig, none) (w.put this (some (.none sig)))
  | constructCallable {this : ι} {sig : Sig} {ref : Ref} {s : S} {b : Meaning A R X M} :
      w.wrappers this = none → (E.invocable sig ref s = true → b = called E sig ref s) →
      Step E w (.construct this sig ref (.callable s), none) (w.put this (some ⟨sig, b⟩))
  | constructObject {this other : ι} {sig : Sig} {ref : Ref} {k : Wrapper Sig A R X M} :
      w.wrappers this = none → w.wrappers other = some k →
      Step E w (.construct this sig ref (.object other), none)
        ((w.put other (some (k.left ref))).put this (some (k.taken E sig)))
  | assignCallable {this : ι} {ref : Ref} {s : S} {old : Wrapper Sig A R X M}
      {b : Meaning A R X M} : w.wrappers this = some old →
      (E.invocable old.sig ref s = true → b = called E old.sig ref s) →
      Step E w (.assign this ref (.callable s), none) (w.put this (some ⟨old.sig, b⟩))
  | assignObject {this other : ι} {ref : Ref} {old k : Wrapper Sig A R X M} :
      w.wrappers this = some old → w.wrappers other = some k →
      Step E w (.assign this ref (.object other), none)
        ((w.put other (some (k.left ref))).put this (some (k.taken E old.sig)))
  | invoke {this : ι} {args : A} {k : Wrapper Sig A R X M} {r : Answer R X × M} :
      w.wrappers this = some k → k.meaning [] (args, w.shared) = r →
      Step E w (.invoke this args, some r.1)
        { w.put this (some ⟨k.sig, k.meaning.after (args, w.shared)⟩) with shared := r.2 }
  | destruct {this : ι} {k : Wrapper Sig A R X M} : w.wrappers this = some k →
      Step E w (.destruct this, none) (w.put this none)
  | share {shared : M} : Step E w (.share shared, none) { w with shared }

/-- Wrappers that keep the meaning of what they wrap. -/
def wrappers (ι : Type) [DecidableEq ι] (E : Callables Sig S A R X M) :
    System (Wrappers ι Sig A R X M) (Event ι Sig S A R X M) where
  init w := w.wrappers = fun _ => none
  step := Step E

end System

/-! ## Construction -/

theorem bind_eq_ok {α β : Type} {x : Except Failure α} {f : α → Except Failure β} {b : β}
    (h : x >>= f = .ok b) : ∃ a, x = .ok a ∧ f a = .ok b := by
  cases x with
  | error e => cases h
  | ok a => exact ⟨a, rfl, h⟩

theorem select_same_eq_move {ref : Ref} : select true ref = .move ↔ ref.isPlainRvalue = true := by
  obtain ⟨lvalue, const, volatile⟩ := ref
  cases lvalue <;> cases const <;> cases volatile <;> decide

section Construct

variable {ref : Ref} {sig sig' : Sig} {u v left : Value Sig S} {depth : Nat}

/-- The step of a recursion: the `m_function` is constructed like the wrapper. -/
theorem makeCallable_function (hu : u.signature = some sig')
    (construct : Sig → Except Failure (Value Sig S × Value Sig S)) :
    makeCallable E construct ref sig u
      = if E.compatible sig sig' then construct sig' else .error .illFormed := by
  cases u with
  | plain s => cases hu
  | empty sig₀ => cases hu; rfl
  | holding sig₀ f => cases hu; rfl

/-- A `Callable` of another callable holds the decayed copy. -/
theorem makeCallable_plain {construct : Sig → Except Failure (Value Sig S × Value Sig S)} {s : S}
    (h : makeCallable E construct ref sig (.plain s) = .ok (v, left)) :
    ∃ s', E.decay ref s = some s' ∧ v = .plain s' := by
  rw [makeCallable] at h
  cases hdecay : E.decay ref s with
  | none =>
      rw [hdecay] at h
      cases h
  | some s' =>
      rw [hdecay] at h
      dsimp only at h
      split at h
      · cases h
        exact ⟨s', rfl, rfl⟩
      · cases h

theorem movedFrom_of_signature (hu : u.signature = some sig') : u.movedFrom = .empty sig' := by
  cases u with
  | plain s => cases hu
  | empty sig₀ => cases hu; rfl
  | holding sig₀ f => cases hu; rfl

variable [DecidableEq Sig]

/-- From a `Function` of the same signature: only the move constructor comes to an end. -/
theorem construct_same (hu : u.signature = some sig)
    (h : construct E ref u depth sig = .ok (v, left)) :
    ref.isPlainRvalue = true ∧ v = u ∧ left = .empty sig := by
  induction depth generalizing v left with
  | zero => cases h
  | succ depth ih =>
      rw [construct, decide_eq_true hu] at h
      cases hselect : select true ref with
      | move =>
          rw [hselect] at h
          cases h
          exact ⟨select_same_eq_move.mp hselect, rfl, movedFrom_of_signature hu⟩
      | deletedCopy =>
          rw [hselect] at h
          cases h
      | template =>
          rw [hselect, makeCallable_function hu] at h
          obtain ⟨⟨mFunction, rest⟩, hmade, -⟩ := bind_eq_ok h
          split at hmade
          · have hmove := select_same_eq_move.mpr (ih hmade).1
            rw [hselect] at hmove
            cases hmove
          · cases hmade

/-- From a callable of another kind. -/
theorem construct_callable {s : S} (h : construct E ref (.plain s) depth sig = .ok (v, left)) :
    ∃ s', E.decay ref s = some s' ∧ v = .holding sig (.plain s') := by
  cases depth with
  | zero => cases h
  | succ depth =>
      rw [construct] at h
      obtain ⟨⟨mFunction, rest⟩, hmade, hv⟩ := bind_eq_ok h
      obtain ⟨s', hdecay, rfl⟩ := makeCallable_plain hmade
      cases hv
      exact ⟨s', hdecay, rfl⟩

/-- From a `Function` of another signature, which is moved into the `Callable`. -/
theorem construct_other (hu : u.signature = some sig') (hne : sig' ≠ sig)
    (h : construct E ref u depth sig = .ok (v, left)) :
    ref.isPlainRvalue = true ∧ v = .holding sig u ∧ left = .empty sig' := by
  have hother : u.signature ≠ some sig := by
    rw [hu]
    exact fun heq => hne (Option.some.inj heq)
  cases depth with
  | zero => cases h
  | succ depth =>
      rw [construct, decide_eq_false hother] at h
      obtain ⟨⟨mFunction, rest⟩, hmade, hv⟩ := bind_eq_ok h
      rw [makeCallable_function hu] at hmade
      split at hmade
      · obtain ⟨href, rfl, rfl⟩ := construct_same hu hmade
        cases hv
        exact ⟨href, rfl, rfl⟩
      · cases hmade

/-- A wrapper that is made of a callable means the decayed copy. -/
theorem wrapper_made_callable {s : S}
    (h : construct E ref (.plain s) depth sig = .ok (v, left)) :
    ∃ s', E.decay ref s = some s' ∧ wrapper E v = some ⟨sig, called E sig .stored s'⟩ := by
  obtain ⟨s', hdecay, rfl⟩ := construct_callable h
  refine ⟨s', hdecay, ?_⟩
  rw [wrapper_holding, behaviour_plain]
  rfl

/-- A wrapper that is made of a wrapper means what that meant, and leaves nothing there. -/
theorem wrapper_made {k : Wrapper Sig A R X M} (hu : wrapper E u = some k)
    (h : construct E ref u depth sig = .ok (v, left)) :
    wrapper E v = some (k.taken E sig) ∧ wrapper E left = some (k.left ref) := by
  obtain ⟨sig', hsig', rfl⟩ : ∃ sig', u.signature = some sig'
      ∧ ⟨sig', behaviour (call E) u⟩ = k := Option.map_eq_some_iff.mp hu
  by_cases hsame : sig' = sig
  · subst hsame
    obtain ⟨href, rfl, rfl⟩ := construct_same hsig' h
    rw [hu, wrapper_empty, Wrapper.taken, Wrapper.left, if_pos rfl, if_pos href]
    exact ⟨rfl, rfl⟩
  · obtain ⟨href, rfl, rfl⟩ := construct_other hsig' hsame h
    rw [wrapper_holding, wrapper_empty, Wrapper.taken, Wrapper.left, if_neg hsame, if_pos href]
    exact ⟨rfl, rfl⟩

end Construct

/-! ## Every run -/

theorem object_eq_ok {w : World ι Sig S M} {this : ι} {v : Value Sig S}
    (h : w.object this = .ok v) : w.functions this = some v := by
  rw [World.object] at h
  cases hw : w.functions this with
  | none => rw [hw] at h; cases h
  | some v' => rw [hw] at h; cases h; rfl

theorem unused_eq_ok {w : World ι Sig S M} {this : ι} {x : Unit} (h : w.unused this = .ok x) :
    w.functions this = none := by
  rw [World.unused] at h
  cases hw : w.functions this with
  | none => rfl
  | some v => rw [hw] at h; cases h

/-- An object whose signature is asked for. -/
theorem signature_eq_ok {w : World ι Sig S M} {this : ι} {sig : Sig}
    (h : w.signature this = .ok sig) :
    ∃ v, w.functions this = some v ∧ v.signature = some sig := by
  obtain ⟨v, hv, h⟩ := bind_eq_ok h
  refine ⟨v, object_eq_ok hv, ?_⟩
  cases hsig : v.signature with
  | none => rw [hsig] at h; cases h
  | some sig' => rw [hsig] at h; cases h; rfl

/-- What a constructor or an assignment is given means the same in the wrapper: a callable
    answers like its decayed copy, a `Function` is a non-const, non-volatile rvalue. -/
def Op.Faithful (E : Callables Sig S A R X M) (w : World ι Sig S M) : Op ι Sig S A M → Prop
  | .construct _ sig ref (.callable s) => AnswersAlike E sig ref s
  | .assign this ref (.callable s) => ∀ sig, w.signature this = .ok sig → AnswersAlike E sig ref s
  | .construct _ _ ref (.object _) => ref.isPlainRvalue = true
  | .assign _ ref (.object _) => ref.isPlainRvalue = true
  | _ => True

section Runs

variable [DecidableEq Sig] [DecidableEq ι] {w w' : World ι Sig S M} {depth : Nat}

/-- The objects of a run are `Function`s. -/
def Typed (w : World ι Sig S M) : Prop :=
  ∀ this v, w.functions this = some v → v.signature ≠ none

omit [DecidableEq Sig] in
theorem Typed.put (hw : Typed w) {this : ι} {x : Option (Value Sig S)}
    (hx : ∀ v, x = some v → v.signature ≠ none) : Typed (w.put this x) := by
  intro other v hv
  have hv : Function.update w.functions this x other = some v := hv
  by_cases hother : other = this
  · rw [hother, Function.update_self] at hv
    exact hx v hv
  · rw [Function.update_of_ne hother] at hv
    exact hw other v hv

omit [DecidableEq Sig] in
/-- A new value for an object, with what it means. -/
theorem Typed.meaning_put (hw : Typed w) (this : ι) {v : Value Sig S}
    {k : Wrapper Sig A R X M} (hv : wrapper E v = some k) :
    Typed (w.put this (some v))
      ∧ meaning E (w.put this (some v)) = (meaning E w).put this (some k) := by
  constructor
  · refine hw.put fun v' hv' => ?_
    cases hv'
    rw [signature_of_wrapper hv]
    exact Option.some_ne_none _
  · rw [Functional.meaning_put, Option.bind_some, hv]

omit [DecidableEq Sig] [DecidableEq ι] in
/-- An object of a run, with what it means. -/
theorem Typed.meaning_eq (hw : Typed w) {this : ι} {v : Value Sig S}
    (hv : w.functions this = some v) :
    ∃ k, (meaning E w).wrappers this = some k ∧ wrapper E v = some k := by
  obtain ⟨sig, hsig⟩ := Option.ne_none_iff_exists'.mp (hw this v hv)
  rw [meaning_of_some hv, wrapper_of_signature hsig]
  exact ⟨_, rfl, rfl⟩

/-- A value that is made of an object, and what is left of that: `other` first, since a
    wrapper may be assigned to itself. -/
theorem Typed.take (hw : Typed w) {other : ι} {ref : Ref} {sig : Sig} {v made left : Value Sig S}
    (hv : w.functions other = some v) (hmade : construct E ref v depth sig = .ok (made, left))
    (this : ι) :
    ∃ k, (meaning E w).wrappers other = some k
      ∧ Typed ((w.put other (some left)).put this (some made))
      ∧ meaning E ((w.put other (some left)).put this (some made))
        = ((meaning E w).put other (some (k.left ref))).put this (some (k.taken E sig)) := by
  obtain ⟨k, hk, hwrapper⟩ := hw.meaning_eq (E := E) hv
  obtain ⟨hnew, hleft⟩ := wrapper_made hwrapper hmade
  obtain ⟨htyped, hmeaning⟩ := hw.meaning_put other hleft
  obtain ⟨htyped', hmeaning'⟩ := htyped.meaning_put this hnew
  rw [hmeaning] at hmeaning'
  exact ⟨k, hk, htyped', hmeaning'⟩

/-- What a constructor makes of a callable. -/
theorem Typed.construct_callable (hw : Typed w) {this : ι} {sig : Sig} {ref : Ref} {s : S}
    {answer : Option (Answer R X)}
    (h : exec E depth w (.construct this sig ref (.callable s)) = .ok (w', answer)) :
    ∃ s', E.decay ref s = some s' ∧ answer = none ∧ (meaning E w).wrappers this = none
      ∧ Typed w' ∧ meaning E w'
        = (meaning E w).put this (some ⟨sig, called E sig .stored s'⟩) := by
  obtain ⟨_, hthis, h⟩ := bind_eq_ok h
  obtain ⟨v, hv, h⟩ := bind_eq_ok h
  obtain ⟨⟨made, left⟩, hmade, h⟩ := bind_eq_ok h
  cases h
  cases hv
  obtain ⟨s', hdecay, hwrapper⟩ := wrapper_made_callable hmade
  exact ⟨s', hdecay, rfl, meaning_of_none (unused_eq_ok hthis), hw.meaning_put this hwrapper⟩

/-- What an assignment makes of a callable. -/
theorem Typed.assign_callable (hw : Typed w) {this : ι} {ref : Ref} {s : S}
    {answer : Option (Answer R X)}
    (h : exec E depth w (.assign this ref (.callable s)) = .ok (w', answer)) :
    ∃ old s', E.decay ref s = some s' ∧ answer = none ∧ w.signature this = .ok old.sig
      ∧ (meaning E w).wrappers this = some old ∧ Typed w' ∧ meaning E w'
        = (meaning E w).put this (some ⟨old.sig, called E old.sig .stored s'⟩) := by
  obtain ⟨sig, hsig, h⟩ := bind_eq_ok h
  obtain ⟨v, hv, h⟩ := bind_eq_ok h
  obtain ⟨⟨made, left⟩, hmade, h⟩ := bind_eq_ok h
  cases h
  cases hv
  obtain ⟨old, hold, hsig'⟩ := signature_eq_ok hsig
  have hthis := (meaning_of_some (E := E) hold).trans (wrapper_of_signature hsig')
  -- an assignment constructs like a constructor, one level deeper
  have hmade : construct E ref (.plain s) (depth + 1) sig = .ok (made, left) := hmade
  obtain ⟨s', hdecay, hwrapper⟩ := wrapper_made_callable hmade
  exact ⟨_, s', hdecay, rfl, hsig, hthis, hw.meaning_put this hwrapper⟩

/-- **The step lemma**: what a faithful operation does is what it does to the meanings. -/
theorem step_of_exec (hw : Typed w) {a : Event ι Sig S A R X M}
    (h : exec E depth w a.1 = .ok (w', a.2)) :
    Typed w' ∧ (a.1.Faithful E w → Step E (meaning E w) a (meaning E w')) := by
  obtain ⟨op, answer⟩ := a
  cases op with
  | default this sig =>
      obtain ⟨_, hthis, h⟩ := bind_eq_ok h
      cases h
      obtain ⟨htyped, hmeaning⟩ := hw.meaning_put this (wrapper_empty (E := E) sig)
      rw [hmeaning]
      exact ⟨htyped, fun _ => .default (meaning_of_none (unused_eq_ok hthis))⟩
  | construct this sig ref u =>
      cases u with
      | callable s =>
          obtain ⟨s', hdecay, rfl, hnone, htyped, hmeaning⟩ := hw.construct_callable h
          refine ⟨htyped, fun hfaithful => ?_⟩
          rw [hmeaning]
          exact .constructCallable hnone fun hcall => hfaithful hcall s' hdecay
      | object other =>
          obtain ⟨_, hthis, h⟩ := bind_eq_ok h
          obtain ⟨v, hv, h⟩ := bind_eq_ok h
          obtain ⟨⟨made, left⟩, hmade, h⟩ := bind_eq_ok h
          cases h
          obtain ⟨k, hk, htyped, hmeaning⟩ := hw.take (object_eq_ok hv) hmade this
          have hnone := meaning_of_none (E := E) (unused_eq_ok hthis)
          exact ⟨htyped, fun _ => hmeaning ▸ .constructObject hnone hk⟩
  | assign this ref u =>
      cases u with
      | callable s =>
          obtain ⟨old, s', hdecay, rfl, hsig, hold, htyped, hmeaning⟩ := hw.assign_callable h
          refine ⟨htyped, fun hfaithful => ?_⟩
          rw [hmeaning]
          exact .assignCallable hold fun hcall => hfaithful old.sig hsig hcall s' hdecay
      | object other =>
          obtain ⟨sig, hsig, h⟩ := bind_eq_ok h
          obtain ⟨v, hv, h⟩ := bind_eq_ok h
          obtain ⟨⟨made, left⟩, hmade, h⟩ := bind_eq_ok h
          cases h
          obtain ⟨old, hold, hsig⟩ := signature_eq_ok hsig
          have hthis := (meaning_of_some (E := E) hold).trans (wrapper_of_signature hsig)
          have hmade : construct E ref v (depth + 1) sig = .ok (made, left) := hmade
          obtain ⟨k, hk, htyped, hmeaning⟩ := hw.take (object_eq_ok hv) hmade this
          exact ⟨htyped, fun _ => hmeaning ▸ .assignObject hthis hk⟩
  | invoke this args =>
      obtain ⟨v, hv, h⟩ := bind_eq_ok h
      cases h
      have hthis := object_eq_ok hv
      obtain ⟨sig, hsig⟩ := Option.ne_none_iff_exists'.mp (hw this v hthis)
      obtain ⟨htyped, hmeaning⟩ := hw.meaning_put this
        (wrapper_call (E := E) hsig (args, w.shared))
      have hmeans := (meaning_of_some (E := E) hthis).trans (wrapper_of_signature hsig)
      refine ⟨htyped, fun _ => ?_⟩
      -- the answer is that of the meaning, and so is what it leaves of the shared state
      have hstep : Step E (meaning E w) (.invoke this args, _) _ :=
        .invoke hmeans (behaviour_now v (args, w.shared))
      have hshared := congrArg (fun k : Wrappers ι Sig A R X M =>
        { k with shared := (call E v (args, w.shared)).1.2 }) hmeaning
      exact (show meaning E { w.put this (some (call E v (args, w.shared)).2) with
        shared := (call E v (args, w.shared)).1.2 } = _ from hshared) ▸ hstep
  | destruct this =>
      obtain ⟨v, hv, h⟩ := bind_eq_ok h
      cases h
      obtain ⟨k, hk, -⟩ := hw.meaning_eq (E := E) (object_eq_ok hv)
      refine ⟨hw.put fun _ hx => (by cases hx), fun _ => ?_⟩
      rw [Functional.meaning_put]
      exact .destruct hk
  | share shared =>
      cases h
      exact ⟨hw, fun _ => .share⟩

theorem typed_of_run {as : List (Event ι Sig S A R X M)} (h : Run (functions ι E) as w) :
    Typed w := by
  refine Run.invariant (S := functions ι E) (I := fun _ w => Typed w) ?_ ?_ h
  · intro w hw this v hv
    rw [show w.functions = fun _ => none from hw] at hv
    cases hv
  · intro as w a w' _ htyped hstep
    obtain ⟨depth, hexec⟩ := hstep
    exact (step_of_exec htyped hexec).1

/-- **The run lemma**: in a run of faithful operations the objects mean what they were made
    of, through all calls and moves. -/
theorem wrappers_of_run {as : List (Event ι Sig S A R X M)}
    (h : Run ((functions ι E).restrict fun w a => a.1.Faithful E w) as w) :
    Run (wrappers ι E) as (meaning E w) := by
  refine Run.invariant (S := (functions ι E).restrict _)
    (I := fun as w => Run (wrappers ι E) as (meaning E w)) ?_ ?_ h
  · intro w hw
    refine .start ?_
    show (fun v => v.bind (wrapper E)) ∘ w.functions = fun _ => none
    rw [show w.functions = fun _ => none from hw]
    rfl
  · intro as w a w' hrun hmeans hstep
    obtain ⟨⟨depth, hexec⟩, hfaithful⟩ := hstep
    exact .snoc hmeans ((step_of_exec (typed_of_run hrun.of_restrict) hexec).2 hfaithful)

end Runs
end Functional
