import CppPlayground.Optional.Values

/-! # `Optional` objects are optional variables

    What the class is for: variables that contain a `T` or nothing, and that constructors,
    assignments and destructors treat as one.  `VarStep` says what each operation does to
    them: an assignment leaves in its target what its source contains, a move leaves some
    `T` in its source if there was one, and an operation that throws has no effect, except
    that a move may leave other `T`s in the two places.  Where every assignment transfers
    the value, programs see no difference. -/

namespace Optional

open Program Transition

variable {H T : Type}

/-- The variables that exist. -/
abbrev Vars (H T : Type) : Type := H → Option (Option T)

/-- What a program does and sees: an operation and how it ends, or the answers of
    `has_value()` and `value()`. -/
inductive Line (H T : Type) where
  | op (op : Op H T) (out : Outcome Unit Unit)
  | ask (this : H) (hasValue : Outcome Unit Bool) (value : Outcome Unit T)

variable [DecidableEq H]

/-- What an operation does to variables, and how it can end. -/
inductive VarStep (σ : Vars H T) : Op H T → Outcome Unit Unit → Vars H T → Prop where
  | construct {this : H} : σ this = none →
      VarStep σ (.construct this) (.ok ()) (Function.update σ this (some none))
  | constructFrom {this : H} {v : T} : σ this = none →
      VarStep σ (.constructFrom this v) (.ok ()) (Function.update σ this (some (some v)))
  | constructFromThrows {this : H} {v : T} : σ this = none →
      VarStep σ (.constructFrom this v) (.threw ()) σ
  | copyConstruct {this other : H} {k : Option T} : σ this = none → σ other = some k →
      VarStep σ (.copyConstruct this other) (.ok ()) (Function.update σ this (some k))
  | copyConstructThrows {this other : H} {v : T} : σ this = none → σ other = some (some v) →
      VarStep σ (.copyConstruct this other) (.threw ()) σ
  | moveConstruct {this other : H} {k : Option T} (left : Option T) : σ this = none →
      σ other = some k → left.isSome = k.isSome → VarStep σ (.moveConstruct this other) (.ok ())
        (Function.update (Function.update σ other (some left)) this (some k))
  | moveConstructThrows {this other : H} {v : T} (left : T) : σ this = none →
      σ other = some (some v) → VarStep σ (.moveConstruct this other) (.threw ())
        (Function.update σ other (some (some left)))
  | copyAssign {this other : H} {h k : Option T} : σ this = some h → σ other = some k →
      VarStep σ (.copyAssign this other) (.ok ()) (Function.update σ this (some k))
  | copyAssignThrows {this other : H} {h : Option T} {v : T} : σ this = some h →
      σ other = some (some v) → VarStep σ (.copyAssign this other) (.threw ()) σ
  | moveAssignSelf {this : H} {h : Option T} : σ this = some h →
      VarStep σ (.moveAssign this this) (.ok ()) σ
  | moveAssign {this other : H} {h k : Option T} (left : Option T) : this ≠ other →
      σ this = some h → σ other = some k → left.isSome = k.isSome →
      VarStep σ (.moveAssign this other) (.ok ())
        (Function.update (Function.update σ other (some left)) this (some k))
  | moveAssignThrows {this other : H} {h : Option T} {v : T} (h' : Option T) (left : T) :
      this ≠ other →
      σ this = some h → σ other = some (some v) → h'.isSome = h.isSome →
      VarStep σ (.moveAssign this other) (.threw ())
        (Function.update (Function.update σ other (some (some left))) this (some h'))
  | destruct {this : H} {h : Option T} : σ this = some h →
      VarStep σ (.destruct this) (.ok ()) (Function.update σ this none)

/-- All programs on variables. -/
def optionalVars (H T : Type) [DecidableEq H] : System (Vars H T) (Line H T) where
  init σ := σ = fun _ => none
  step σ a σ' :=
    match a with
    | .op op out => VarStep σ op out σ'
    | .ask this hasValue value => ∃ k, σ this = some k ∧ hasValue = .ok k.isSome
        ∧ value = k.elim (.threw ()) .ok ∧ σ' = σ

/-- All programs on objects, whichever calls of `T` throw. -/
def programs (E : ValueType T) : System (State H T) (Line H T) where
  init s := (optionals E).init s
  step s a s' :=
    match a with
    | .op op out => ∃ throws, (optionals E).step s (op, throws, out) s'
    | .ask this hasValue value =>
        s.object this ≠ none ∧ s.answers this = (hasValue, value) ∧ s' = s

/-- An assignment does not come to one of the two defective branches, or does no harm
    there. -/
def Transfers (E : ValueType T) (s : State H T) : Line H T → Prop
  | .op (.copyAssign this other) _ => CopyMeets E this other (s.stored this) (s.stored other)
  | .op (.moveAssign this other) _ => MoveMeets E this other (s.stored this) (s.stored other)
  | _ => True

/-! ## Objects and variables -/

variable {E : ValueType T} {s s' : State H T} {σ : Vars H T} {this other : H} {throws : Bool}

/-- The objects are what the variables contain. -/
def Rep (s : State H T) (σ : Vars H T) : Prop := ∀ this, s.object this = (σ this).map .of

omit [DecidableEq H] in
theorem Rep.absent (h : Rep s σ) (hthis : s.object this = none) : σ this = none :=
  Option.map_eq_none_iff.mp ((h this).symm.trans hthis)

omit [DecidableEq H] in
theorem Rep.contains (h : Rep s σ) {k : Option T} (hthis : s.object this = some (.of k)) :
    σ this = some k := by
  obtain ⟨k', hk, heq⟩ := Option.map_eq_some_iff.mp ((h this).symm.trans hthis)
  rw [hk]
  exact congrArg (fun o => some (Object.mStorage o)) heq

theorem Rep.put (h : Rep s σ) (this : H) (v : Option (Option T)) :
    Rep (s.put this (v.map .of)) (Function.update σ this v) := by
  intro other
  by_cases ho : other = this
  · rw [ho, put_object_self, Function.update_self]
  · rw [put_object_of_ne ho, Function.update_of_ne ho]
    exact h other

/-- The construction of a `T` in an object, if it does not throw. -/
theorem Rep.engage (h : Rep s σ) (this : H) (v : T) :
    Rep (s.engage this v) (Function.update σ this (some (some v))) :=
  h.put this (some (some v))

theorem Rep.disengage (h : Rep s σ) (this : H) :
    Rep (s.disengage this) (Function.update σ this (some none)) :=
  h.put this (some none)

/-- What contains something already. -/
theorem Rep.same (h : Rep s σ) {k : Option T} (hthis : σ this = some k) :
    Rep s (Function.update σ this (some k)) := by
  rwa [← hthis, Function.update_eq_self]

/-- A copy assignment that meets the condition. -/
theorem Rep.copyAssign {v w : T} (h : Rep s σ) (hne : this ≠ other)
    (hthis : s.object this = some (.of (some v)))
    (hmeets : CopyMeets E this other (some v) (some w)) :
    Rep (if E.nothrowCopyAssignable then s.put this (some (.of (some w))) else s)
      (Function.update σ this (some (some w))) := by
  cases hE : E.nothrowCopyAssignable with
  | true => exact h.put this (some (some w))
  | false =>
      rcases hmeets with htrue | heq | hnone | hnone | hsame
      · rw [hE] at htrue
        cases htrue
      · exact absurd heq hne
      · cases hnone
      · cases hnone
      · rw [← hsame]
        exact h.same (h.contains hthis)

/-- **An operation does to the variables what it says**, if an assignment transfers. -/
theorem Rep.step {op : Op H T} {out : Outcome Unit Unit} (h : Rep s σ)
    (hdoes : Does E s throws op out s') (hreturns : out ≠ .diverged)
    (hallowed : Allowed E s op) (hmeets : Transfers E s (.op op out)) :
    ∃ σ', VarStep σ op out σ' ∧ Rep s' σ' := by
  cases hdoes with
  | construct this hthis => exact ⟨_, .construct (h.absent hthis), h.put this (some none)⟩
  | constructFrom this v hthis =>
      cases throws with
      | true => exact ⟨σ, .constructFromThrows (h.absent hthis), h⟩
      | false => exact ⟨_, .constructFrom (h.absent hthis), h.engage this v⟩
  | copyConstructEmpty this other hthis hother =>
      exact ⟨_, .copyConstruct (h.absent hthis) (h.contains hother), h.put this (some none)⟩
  | copyConstruct this other v hthis hother =>
      cases throws with
      | true => exact ⟨σ, .copyConstructThrows (h.absent hthis) (h.contains hother), h⟩
      | false =>
          exact ⟨_, .copyConstruct (h.absent hthis) (h.contains hother), h.engage this v⟩
  | moveConstructEmpty this other hthis hother =>
      have hleft := h.same (h.contains hother)
      exact ⟨_, .moveConstruct none (h.absent hthis) (h.contains hother) rfl,
        hleft.put this (some none)⟩
  | moveConstruct this other v hthis hother =>
      have hleft := h.put other (some (some (E.left throws v)))
      cases throws with
      | true => exact ⟨_, .moveConstructThrows _ (h.absent hthis) (h.contains hother), hleft⟩
      | false =>
          exact ⟨_, .moveConstruct (some (E.left false v)) (h.absent hthis) (h.contains hother) rfl,
            hleft.engage this v⟩
  | destructEmpty this hthis => exact ⟨_, .destruct (h.contains hthis), h.put this none⟩
  | destruct this v hthis =>
      have hgone := (h.disengage this).put this none
      rw [Function.update_idem] at hgone
      exact ⟨_, .destruct (h.contains hthis), hgone⟩
  | copyAssignSelf this =>
      obtain ⟨o, ho⟩ := Option.ne_none_iff_exists'.mp hallowed.1
      obtain ⟨k, hk, -⟩ := Option.map_eq_some_iff.mp ((h this).symm.trans ho)
      exact ⟨_, .copyAssign hk hk, h.same hk⟩
  | moveAssignSelf this =>
      obtain ⟨o, ho⟩ := Option.ne_none_iff_exists'.mp hallowed.2.1
      obtain ⟨k, hk, -⟩ := Option.map_eq_some_iff.mp ((h this).symm.trans ho)
      exact ⟨σ, .moveAssignSelf hk, h⟩
  | copyAssign this other v w hne hthis hother =>
      have hcopy : CopyMeets E this other (s.stored this) (s.stored other) := hmeets
      rw [stored_of hthis, stored_of hother] at hcopy
      exact ⟨_, .copyAssign (h.contains hthis) (h.contains hother),
        h.copyAssign hne hthis hcopy⟩
  | moveAssign this other v w hne hthis hother =>
      have hleft := h.put other (some (some (E.left throws w)))
      cases throws with
      | true =>
          have hthrew : E.moveEnded true = .threw () := guarded_threw hreturns
          rw [hthrew]
          exact ⟨_, .moveAssignThrows (some (E.assigned true v w)) _ hne (h.contains hthis)
            (h.contains hother) rfl, hleft.put this (some (some (E.assigned true v w)))⟩
      | false =>
          exact ⟨_, .moveAssign (some (E.left false w)) hne (h.contains hthis) (h.contains hother)
            rfl, hleft.put this (some (some w))⟩
  | copyAssignEmpty this other v hne hthis hother =>
      exact ⟨_, .copyAssign (h.contains hthis) (h.contains hother), h.disengage this⟩
  | moveAssignEmpty this other v hne hthis hother =>
      have hleft := h.same (h.contains hother)
      exact ⟨_, .moveAssign none hne (h.contains hthis) (h.contains hother) rfl,
        hleft.disengage this⟩
  | copyAssignToEmpty this other w hne hthis hother =>
      cases throws with
      | true => exact ⟨σ, .copyAssignThrows (h.contains hthis) (h.contains hother), h⟩
      | false =>
          exact ⟨_, .copyAssign (h.contains hthis) (h.contains hother), h.engage this w⟩
  | moveAssignToEmpty this other w make hne hthis hother hmake =>
      have hleft := h.put other (some (some (make throws w).2))
      cases throws with
      | true =>
          have hsame := hleft.same ((Function.update_of_ne hne _ _).trans (h.contains hthis))
          have hthrew : E.moveEnded true = .threw () := guarded_threw hreturns
          rw [hthrew]
          exact ⟨_, .moveAssignThrows none _ hne (h.contains hthis) (h.contains hother) rfl, hsame⟩
      | false =>
          -- the constructor of `T` makes of the union what is in it
          have hmove : MoveMeets E this other (s.stored this) (s.stored other) := hmeets
          rw [stored_of hthis, stored_of hother] at hmove
          obtain ⟨make', hmake', hvalue⟩ := hmove
          obtain rfl := Option.some.inj (hmake.symm.trans hmake')
          have hw : (make false w).1 = w := by
            rcases hvalue with heq | hno | hall
            · exact absurd heq hne
            · exact absurd rfl hno
            · exact hall w rfl
          refine ⟨_, .moveAssign (some (make false w).2) hne (h.contains hthis) (h.contains hother)
            rfl, ?_⟩
          rw [hw]
          exact hleft.engage this w
  | copyAssignEmpties this other hne hthis hother =>
      exact ⟨_, .copyAssign (h.contains hthis) (h.contains hother), h.same (h.contains hthis)⟩
  | moveAssignEmpties this other hne hthis hother =>
      have hleft := h.same (h.contains hother)
      refine ⟨_, .moveAssign none hne (h.contains hthis) (h.contains hother) rfl, ?_⟩
      exact hleft.same ((Function.update_of_ne hne _ _).trans (h.contains hthis))

/-! ## Whole runs -/

variable {tr : List (Line H T)}

/-- **Programs see variables.**  In every run whose assignments transfer, whichever calls of
    `T` throw: operations end as they do for variables, and `has_value()` and `value()`
    answer what the variables contain. -/
theorem runs_are_variables (h : Run ((programs E).restrict (Transfers E)) tr s) :
    ∃ σ, Run (optionalVars H T) tr σ ∧ ∀ this, s.object this = (σ this).map .of := by
  have hflag : ∀ {s : State H T} {σ}, Rep s σ →
      ∀ this o, s.object this = some o → o.mStorage.isSome = o.mHasValue := by
    intro s σ hrep this o ho
    obtain ⟨k, -, rfl⟩ := Option.map_eq_some_iff.mp ((hrep this).symm.trans ho)
    rfl
  have hsim : Simulation ((programs E).restrict (Transfers E)) (optionalVars H T) Rep := by
    constructor
    · rintro s rfl
      exact ⟨fun _ => none, rfl, fun _ => rfl⟩
    · rintro s σ a s' hrep ⟨hstep, hmeets⟩
      cases a with
      | op op out =>
          obtain ⟨throws, hallowed, hrun, hreturns⟩ := hstep
          obtain ⟨out', s'', hrun', hdoes⟩ := exec_does (hflag hrep) hallowed
          obtain ⟨rfl, rfl⟩ := Prod.mk.inj (hrun.symm.trans hrun')
          exact hrep.step hdoes hreturns hallowed hmeets
      | ask this hasValue value =>
          obtain ⟨hexists, hanswers, rfl⟩ := hstep
          obtain ⟨o, ho⟩ := Option.ne_none_iff_exists'.mp hexists
          obtain ⟨k, hk, rfl⟩ := Option.map_eq_some_iff.mp ((hrep this).symm.trans ho)
          rw [answers_of ho] at hanswers
          obtain ⟨rfl, rfl⟩ := Prod.mk.inj hanswers
          exact ⟨σ, ⟨k, hk, rfl, rfl, rfl⟩, hrep⟩
  exact hsim.run h

/-- The next state, if the operation ends, or the object answers, as the line says. -/
def nextLine [DecidableEq T] (E : ValueType T) (s : State H T) : Line H T → Option (State H T)
  | .op op out => next E s (op, decide (out = .threw ()), out)
  | .ask this hasValue value =>
      if s.object this ≠ none ∧ s.answers this = (hasValue, value) then some s else none

theorem nextLine_step [DecidableEq T] {a : Line H T} (h : nextLine E s a = some s') :
    (programs E).step s a s' := by
  cases a with
  | op op out => exact ⟨_, next_step h⟩
  | ask this hasValue value =>
      obtain ⟨⟨hexists, hanswers⟩, hsame⟩ := Option.ite_none_right_eq_some.mp h
      exact ⟨hexists, hanswers, (Option.some.inj hsame).symm⟩

/-- A `T` whose copy assignment does not throw, and which makes of a union what is in it. -/
def nothrowAssign : ValueType Nat := { mayThrow with nothrowCopyAssignable := true }

omit [DecidableEq H] in
/-- All its assignments transfer. -/
theorem nothrowAssign_transfers (s : State H Nat) (a : Line H Nat) :
    Transfers nothrowAssign s a := by
  cases a with
  | ask this hasValue value => trivial
  | op op out =>
      cases op with
      | copyAssign this other => exact Or.inl rfl
      | moveAssign this other => exact ⟨_, rfl, Or.inr (Or.inr fun _ _ => rfl)⟩
      | _ => trivial

/-- An assignment fails and is made again; the value is moved back. -/
def seenRun : List (Line Bool Nat) :=
  [.op (.construct true) (.ok ()), .op (.constructFrom false 7) (.ok ()),
    .op (.copyAssign true false) (.threw ()), .ask true (.ok false) (.threw ()),
    .op (.copyAssign true false) (.ok ()), .ask true (.ok true) (.ok 7),
    .op (.moveAssign false true) (.ok ()), .ask false (.ok true) (.ok 7),
    .op (.destruct true) (.ok ())]

theorem seenRun_are_variables : ∃ σ, Run (optionalVars Bool Nat) seenRun σ
    ∧ σ true = none ∧ σ false = some (some 7) := by
  obtain ⟨s, hfollow, htrue, hfalse⟩ : ∃ s,
      follow (nextLine nothrowAssign) ⟨fun _ => none, fun _ => 0, fun _ => 0⟩ seenRun = some s
        ∧ s.object true = none ∧ s.object false = some (.of (some 7)) := ⟨_, rfl, rfl, rfl⟩
  have hnext : ∀ (s : State Bool Nat) a s', nextLine nothrowAssign s a = some s' →
      ((programs nothrowAssign).restrict (Transfers nothrowAssign)).step s a s' :=
    fun s a _ h => ⟨nextLine_step h, nothrowAssign_transfers s a⟩
  have hrun := run_of_follow hnext rfl hfollow
  obtain ⟨σ, hvariables, hrep⟩ := runs_are_variables hrun
  exact ⟨σ, hvariables, Rep.absent hrep htrue, Rep.contains hrep hfalse⟩

end Optional
