import CppPlayground.Functional.Meaning

/-! # Which constructions of a `Function` come to an end

    A `Function` that is not passed as a plain rvalue is no concern of the special
    members: the template constructs an `m_function` of the type of the argument, from the
    argument, by the same template.  Everything else ends, at the second level at the
    latest. -/

namespace Functional

open Transition Reactive

variable {ι Sig S A R X M : Type} {E : Callables Sig S A R X M}

section Construct

theorem bind_ne_tooDeep {α β : Type} {x : Except Failure α} {f : α → Except Failure β}
    (hx : x ≠ .error .tooDeep) (hf : ∀ a, x = .ok a → f a ≠ .error .tooDeep) :
    x >>= f ≠ .error .tooDeep := by
  cases x with
  | error e => exact fun h => hx (by cases h; rfl)
  | ok a => exact hf a rfl

variable {ref : Ref} {sig : Sig} {u v left : Value Sig S} {depth : Nat}

/-- A `Callable` comes to an end if its `m_function` does. -/
theorem makeCallable_ne_tooDeep {construct : Sig → Except Failure (Value Sig S × Value Sig S)}
    (hinner : ∀ sig', u.signature = some sig' → construct sig' ≠ .error .tooDeep) :
    makeCallable E construct ref sig u ≠ .error .tooDeep := by
  cases hsig : u.signature with
  | some sig' =>
      rw [makeCallable_function hsig]
      split
      · exact hinner sig' hsig
      · exact fun h => by cases h
  | none =>
      cases u with
      | empty sig' => cases hsig
      | holding sig' f => cases hsig
      | plain s =>
          rw [makeCallable]
          cases E.decay ref s with
          | none => exact fun h => by cases h
          | some s' =>
              dsimp only
              split <;> exact fun h => by cases h

variable [DecidableEq Sig]

/-- **The greedy template**: chosen for a `Function`, it is chosen again for the
    `m_function`, however deep. -/
theorem construct_endless (hu : u.signature = some sig)
    (hcompatible : E.compatible sig sig = true) (hselect : select true ref = .template) :
    construct E ref u depth sig = .error .tooDeep := by
  induction depth with
  | zero => rfl
  | succ depth ih =>
      rw [construct, decide_eq_true hu, hselect]
      show makeCallable E (construct E ref u depth) ref sig u >>= _ = _
      rw [makeCallable_function hu, if_pos hcompatible, ih]
      rfl

/-- **Where the constructions end.**  Two are nested at most. -/
theorem construct_ends (hu : u.signature ≠ none → ref.isPlainRvalue = true) (depth : Nat)
    (sig : Sig) : construct E ref u (depth + 2) sig ≠ .error .tooDeep := by
  -- at the second depth the argument is a `Function` of the signature, and is moved from
  have hinner : ∀ sig', u.signature = some sig' →
      construct E ref u (depth + 1) sig' ≠ .error .tooDeep := by
    intro sig' hsig'
    have href := hu (by rw [hsig']; exact Option.some_ne_none _)
    rw [construct, decide_eq_true hsig', select_same_eq_move.mpr href]
    exact fun h => by cases h
  rw [construct]
  cases select (u.signature = some sig) ref with
  | move => exact fun h => by cases h
  | deletedCopy => exact fun h => by cases h
  | template => exact bind_ne_tooDeep (makeCallable_ne_tooDeep hinner) fun _ _ h => by cases h

/-- And only there. -/
theorem isPlainRvalue_of_construct (hu : u.signature ≠ none)
    (h : construct E ref u depth sig = .ok (v, left)) : ref.isPlainRvalue = true := by
  obtain ⟨sig', hsig'⟩ := Option.ne_none_iff_exists'.mp hu
  by_cases hsame : sig' = sig
  · exact (construct_same (hsame ▸ hsig') h).1
  · exact (construct_other hsig' hsame h).1

end Construct

/-! ## Operations -/

section Runs

variable [DecidableEq Sig] [DecidableEq ι] {w w' : World ι Sig S M} {depth : Nat}

/-- An operation that compiles, on objects that exist. -/
def Accepted (E : Callables Sig S A R X M) (w : World ι Sig S M) (op : Op ι Sig S A M) : Prop :=
  ∀ depth, exec E depth w op ≠ .error .illFormed ∧ exec E depth w op ≠ .error .noObject

/-- An operation that comes to an end at some depth, with objects that mean what it was
    given. -/
def KeepsMeaning (E : Callables Sig S A R X M) (w : World ι Sig S M) (op : Op ι Sig S A M) :
    Prop :=
  ∃ depth w' answer, exec E depth w op = .ok (w', answer)
    ∧ Step E (meaning E w) (op, answer) (meaning E w')

/-- A constructor or an assignment that is given a `Function` is given a non-const,
    non-volatile rvalue. -/
def Op.PassesPlainRvalue : Op ι Sig S A M → Prop
  | .construct _ _ ref (.object _) => ref.isPlainRvalue = true
  | .assign _ ref (.object _) => ref.isPlainRvalue = true
  | _ => True

omit [DecidableEq Sig] [DecidableEq ι] in
theorem object_ne_tooDeep (this : ι) : w.object this ≠ .error .tooDeep := by
  rw [World.object]
  cases w.functions this <;> exact fun h => by cases h

omit [DecidableEq Sig] [DecidableEq ι] in
theorem unused_ne_tooDeep (this : ι) : w.unused this ≠ .error .tooDeep := by
  rw [World.unused]
  cases w.functions this <;> exact fun h => by cases h

omit [DecidableEq Sig] [DecidableEq ι] in
theorem arg_ne_tooDeep (u : Arg ι S) : w.arg u ≠ .error .tooDeep := by
  cases u with
  | callable s => exact fun h => by cases h
  | object other => exact object_ne_tooDeep other

omit [DecidableEq Sig] [DecidableEq ι] in
theorem signature_ne_tooDeep (this : ι) : w.signature this ≠ .error .tooDeep := by
  refine bind_ne_tooDeep (object_ne_tooDeep this) fun v _ => ?_
  cases v.signature <;> exact fun h => by cases h

/-- Two nested constructions are deep enough for an operation that passes no `Function` as
    anything else. -/
theorem exec_ne_tooDeep {op : Op ι Sig S A M} (hop : op.PassesPlainRvalue) :
    exec E 2 w op ≠ .error .tooDeep := by
  -- an argument that is a `Function` is passed as it should be
  have harg : ∀ {ref : Ref} {u : Arg ι S} {v : Value Sig S},
      (∀ other, u = .object other → ref.isPlainRvalue = true) → w.arg u = .ok v →
      v.signature ≠ none → ref.isPlainRvalue = true := by
    intro ref u v href hv hsig
    cases u with
    | callable s => cases hv; exact absurd rfl hsig
    | object other => exact href other rfl
  cases op with
  | default this sig =>
      exact bind_ne_tooDeep (unused_ne_tooDeep this) fun _ _ h => by cases h
  | construct this sig ref u =>
      have href : ∀ other, u = .object other → ref.isPlainRvalue = true := by
        rintro other rfl
        exact hop
      refine bind_ne_tooDeep (unused_ne_tooDeep this) fun _ _ => ?_
      refine bind_ne_tooDeep (arg_ne_tooDeep u) fun v hv => ?_
      exact bind_ne_tooDeep (construct_ends (harg href hv) 0 sig) fun _ _ h => by cases h
  | assign this ref u =>
      have href : ∀ other, u = .object other → ref.isPlainRvalue = true := by
        rintro other rfl
        exact hop
      refine bind_ne_tooDeep (signature_ne_tooDeep this) fun sig _ => ?_
      refine bind_ne_tooDeep (arg_ne_tooDeep u) fun v hv => ?_
      exact bind_ne_tooDeep (construct_ends (harg href hv) 1 sig) fun _ _ h => by cases h
  | invoke this args =>
      exact bind_ne_tooDeep (object_ne_tooDeep this) fun _ _ h => by cases h
  | destruct this =>
      exact bind_ne_tooDeep (object_ne_tooDeep this) fun _ _ h => by cases h
  | share shared => exact fun h => by cases h

/-- An operation that ends passes no `Function` as anything else. -/
theorem passesPlainRvalue_of_exec (hw : Typed w) {op : Op ι Sig S A M}
    {r : World ι Sig S M × Option (Answer R X)} (h : exec E depth w op = .ok r) :
    op.PassesPlainRvalue := by
  cases op with
  | default this sig => trivial
  | invoke this args => trivial
  | destruct this => trivial
  | share shared => trivial
  | construct this sig ref u =>
      cases u with
      | callable s => trivial
      | object other =>
          obtain ⟨_, _, h⟩ := bind_eq_ok h
          obtain ⟨v, hv, h⟩ := bind_eq_ok h
          obtain ⟨⟨made, left⟩, hmade, -⟩ := bind_eq_ok h
          exact isPlainRvalue_of_construct (hw other v (object_eq_ok hv)) hmade
  | assign this ref u =>
      cases u with
      | callable s => trivial
      | object other =>
          obtain ⟨sig, _, h⟩ := bind_eq_ok h
          obtain ⟨v, hv, h⟩ := bind_eq_ok h
          obtain ⟨⟨made, left⟩, hmade, -⟩ := bind_eq_ok h
          have hmade : construct E ref v (depth + 1) sig = .ok (made, left) := hmade
          exact isPlainRvalue_of_construct (hw other v (object_eq_ok hv)) hmade

omit [DecidableEq Sig] in
theorem put_inj {k k' : Wrapper Sig A R X M} {m : Wrappers ι Sig A R X M} {this : ι}
    (h : m.put this (some k) = m.put this (some k')) : k = k' := by
  have hthis := congrFun (congrArg Wrappers.wrappers h) this
  have hboth : Function.update m.wrappers this (some k) this
      = Function.update m.wrappers this (some k') this := hthis
  rw [Function.update_self, Function.update_self] at hboth
  exact Option.some.inj hboth

/-- An operation that keeps the meaning is faithful: the wrapper answers as the decayed copy
    does. -/
theorem faithful_of_keepsMeaning (hw : Typed w) {op : Op ι Sig S A M}
    (h : KeepsMeaning E w op) : op.Faithful E w := by
  obtain ⟨depth, w', answer, hexec, hstep⟩ := h
  have hplain := passesPlainRvalue_of_exec hw hexec
  cases op with
  | construct this sig ref u =>
      cases u with
      | object other => exact hplain
      | callable s =>
          obtain ⟨s', hdecay, rfl, -, -, hmeaning⟩ := hw.construct_callable hexec
          rw [hmeaning] at hstep
          intro hcall s'' hdecay''
          obtain rfl := Option.some.inj (hdecay.symm.trans hdecay'')
          generalize hafter : (meaning E w).put this _ = after at hstep
          cases hstep with
          | constructCallable _ hb =>
              have hsame := put_inj hafter
              exact (congrArg Wrapper.meaning hsame).trans (hb hcall)
  | assign this ref u =>
      cases u with
      | object other => exact hplain
      | callable s =>
          obtain ⟨old, s', hdecay, rfl, hsig, hold, -, hmeaning⟩ := hw.assign_callable hexec
          rw [hmeaning] at hstep
          intro sig hsig' hcall s'' hdecay''
          obtain rfl := Option.some.inj (hdecay.symm.trans hdecay'')
          obtain rfl := Except.ok.inj (hsig.symm.trans hsig')
          generalize hafter : (meaning E w).put this _ = after at hstep
          cases hstep with
          | assignCallable hold' hb =>
              obtain rfl := Option.some.inj (hold.symm.trans hold')
              have hsame := put_inj hafter
              exact (congrArg Wrapper.meaning hsame).trans (hb hcall)
  | _ => trivial

omit [DecidableEq Sig] [DecidableEq ι] in
theorem Op.Faithful.passesPlainRvalue {op : Op ι Sig S A M} (h : op.Faithful E w) :
    op.PassesPlainRvalue := by
  cases op with
  | construct this sig ref u => cases u with
    | callable s => trivial
    | object other => exact h
  | assign this ref u => cases u with
    | callable s => trivial
    | object other => exact h
  | _ => trivial

/-- **Wrapping ends and keeps the meaning exactly for what is faithful.**  In every run of
    faithful operations the wrappers mean what they were made of, through all calls and
    moves, and in every state of any run an operation that compiles comes to an end, with
    objects that mean what it was given, exactly if it is faithful. -/
theorem wrapping_keeps_meaning_iff (E : Callables Sig S A R X M)
    {as : List (Event ι Sig S A R X M)} {w : World ι Sig S M} (h : Run (functions ι E) as w) :
    (Run ((functions ι E).restrict fun w a => a.1.Faithful E w) as w →
        Run (wrappers ι E) as (meaning E w))
      ∧ ∀ op, Accepted E w op → (KeepsMeaning E w op ↔ op.Faithful E w) := by
  have htyped := typed_of_run h
  refine ⟨wrappers_of_run, fun op haccepted => ⟨faithful_of_keepsMeaning htyped, ?_⟩⟩
  intro hfaithful
  cases hexec : exec E 2 w op with
  | ok r =>
      obtain ⟨w', answer⟩ := r
      have hstep := step_of_exec htyped (a := (op, answer)) hexec
      exact ⟨2, w', answer, hexec, hstep.2 hfaithful⟩
  | error e =>
      cases e with
      | illFormed => exact absurd hexec (haccepted 2).1
      | noObject => exact absurd hexec (haccepted 2).2
      | tooDeep => exact absurd hexec (exec_ne_tooDeep hfaithful.passesPlainRvalue)

/-- A step that can be followed, with constructions nested at most so deep. -/
def next [DecidableEq R] [DecidableEq X] (E : Callables Sig S A R X M) (depth : Nat)
    (w : World ι Sig S M) (a : Event ι Sig S A R X M) : Option (World ι Sig S M) :=
  match exec E depth w a.1 with
  | .ok (w', answer) => if answer = a.2 then some w' else none
  | .error _ => none

theorem next_step [DecidableEq R] [DecidableEq X] {a : Event ι Sig S A R X M}
    (hnext : next E depth w a = some w') : (functions ι E).step w a w' := by
  rw [next] at hnext
  cases hexec : exec E depth w a.1 with
  | error e => rw [hexec] at hnext; cases hnext
  | ok r =>
      rw [hexec] at hnext
      have hite : (if r.2 = a.2 then some r.1 else none) = some w' := hnext
      obtain ⟨hanswer, hw'⟩ := Option.ite_none_right_eq_some.mp hite
      exact ⟨depth, hexec.trans (by rw [← hanswer, ← Option.some.inj hw'])⟩

end Runs

/-! ## Sums -/

/-- Callables that share a total, for signatures of unsigned types with so many values: a
    call adds a multiple of its argument to the total, and the call of a const one only
    reads it. -/
def summers : Callables Nat Nat Nat Nat Empty Nat where
  invoke ref factor args :=
    let total := if ref.const then args.2 else args.2 + factor * args.1
    ((.ok total, total), factor)
  decay _ factor := some factor
  invocable _ _ _ := true
  compatible _ _ := true
  pass values x := x % values
  convert values r := r % values

/-- `std::move(object)`, or a temporary -/
def rvalue : Ref := ⟨false, false, false⟩

/-- A summing `Function<uint16_t(uint16_t)>` is moved into a `Function<uint8_t(uint8_t)>`,
    and that into another one; the total changes in between. -/
def summing : List (Event Nat Nat Nat Nat Nat Empty Nat) :=
  [(.construct 0 65536 rvalue (.callable 2), none), (.default 1 256, none),
    (.assign 1 rvalue (.object 0), none), (.invoke 1 200, some (.ok 144)),
    (.construct 2 256 rvalue (.object 1), none), (.share 10, none),
    (.invoke 2 3, some (.ok 16)), (.invoke 1 3, some (.error .badFunctionCall))]

theorem summing_keeps_meaning : ∃ w, Run (functions Nat summers) summing w
    ∧ Run (wrappers Nat summers) summing (meaning summers w)
    ∧ KeepsMeaning summers w (.construct 3 256 rvalue (.object 2)) := by
  obtain ⟨w, hfollow, haccepted⟩ : ∃ w,
      follow (next summers 2) ⟨fun _ => none, 0⟩ summing = some w
        ∧ Accepted summers w (.construct 3 256 rvalue (.object 2)) := by
    refine ⟨_, rfl, fun depth => ?_⟩
    cases depth <;> exact ⟨(fun h => by cases h), fun h => by cases h⟩
  have hrun := run_of_follow (fun _ _ _ => next_step)
    (show (functions Nat summers).init ⟨fun _ => none, 0⟩ from rfl) hfollow
  have hfaithful : ∀ a ∈ summing, ∀ w, a.1.Faithful summers w := by
    have halike : AnswersAlike summers 65536 rvalue 2 := by
      intro _ s' hs'
      obtain rfl := Option.some.inj hs'
      rfl
    intro a ha w
    simp only [summing, List.mem_cons, List.not_mem_nil, or_false] at ha
    rcases ha with rfl | rfl | rfl | rfl | rfl | rfl | rfl | rfl
    · exact halike
    · trivial
    · exact (rfl : rvalue.isPlainRvalue = true)
    · trivial
    · exact (rfl : rvalue.isPlainRvalue = true)
    all_goals trivial
  obtain ⟨hmeaning, hiff⟩ := wrapping_keeps_meaning_iff summers hrun
  exact ⟨w, hrun, hmeaning (hrun.restrict_of_labels hfaithful), (hiff _ haccepted).mpr rfl⟩

/-- The world with that `Function`. -/
def summer : World Nat Nat Nat Nat :=
  ⟨Function.update (fun _ => none) 0 (some (.holding 65536 (.plain 2))), 0⟩

/-- `Function<uint16_t(uint16_t)> g(f)` is accepted, and never ends. -/
theorem lvalue_never_wrapped :
    Run (functions Nat summers) [(.construct 0 65536 rvalue (.callable 2), none)] summer
      ∧ Accepted summers summer (.construct 1 65536 ⟨true, false, false⟩ (.object 0))
      ∧ (∀ depth, exec summers depth summer
          (.construct 1 65536 ⟨true, false, false⟩ (.object 0)) = .error .tooDeep)
      ∧ ¬ KeepsMeaning summers summer (.construct 1 65536 ⟨true, false, false⟩ (.object 0)) := by
  have hexec : ∀ depth, exec summers depth summer
      (.construct 1 65536 ⟨true, false, false⟩ (.object 0)) = .error .tooDeep := by
    intro depth
    show construct summers ⟨true, false, false⟩ _ depth 65536 >>= _ = _
    rw [construct_endless rfl rfl rfl]
    rfl
  refine ⟨.snoc (s := ⟨fun _ => none, 0⟩) (.start rfl) ⟨2, rfl⟩, fun depth => ?_, hexec, ?_⟩
  · rw [hexec depth]
    exact ⟨(fun h => by cases h), fun h => by cases h⟩
  · rintro ⟨depth, w', answer, h, -⟩
    rw [hexec depth] at h
    cases h

/-- The wrapper of a const lvalue adds to the total, which the const lvalue does not. -/
example : ¬ AnswersAlike summers 65536 ⟨true, true, false⟩ 2 := by
  intro halike
  have hsame := congrFun (congrFun (halike rfl 2 rfl) []) (1, 0)
  exact absurd (congrArg Prod.snd hsame) (by decide)

end Functional
