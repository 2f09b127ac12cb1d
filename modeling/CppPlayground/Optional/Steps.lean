import CppPlayground.Optional.Model

/-! # `Optional`: what an operation does

    An object whose flag agrees with its storage is `Object.of` of what it contains.  From
    such objects `Does` lists the operations with how they end and the objects and counts
    they leave; `exec_does` derives it from the statements of the members. -/

namespace Optional

open Program

variable {H T : Type}

/-- The object that contains `v`, or nothing. -/
def Object.of (v : Option T) : Object T := ⟨v, v.isSome⟩

theorem Object.eq_of {o : Object T} (hflag : o.mStorage.isSome = o.mHasValue) :
    o = .of o.mStorage := by
  rw [Object.of, hflag]

/-- How a call of `T` ends. -/
def ended (throws : Bool) : Outcome Unit Unit := if throws then .threw () else .ok ()

/-- How a move assignment ends that calls `T`. -/
def ValueType.moveEnded (E : ValueType T) (throws : Bool) : Outcome Unit Unit :=
  (ended throws).guarded E.nothrowMovable

/-- What a move leaves in its source. -/
def ValueType.left (E : ValueType T) (throws : Bool) (v : T) : T :=
  if throws then E.halfMoved v else E.moved v

/-- What an assignment of `v` leaves in its target. -/
def ValueType.assigned (E : ValueType T) (throws : Bool) (old v : T) : T :=
  if throws then E.halfAssigned old v else v

variable [DecidableEq H] {E : ValueType T} {s s' : State H T} {this other : H}
  {throws : Bool} {op : Op H T} {out : Outcome Unit Unit}

/-! ## Objects -/

@[simp] theorem put_object_self (s : State H T) (this : H) (o : Option (Object T)) :
    (s.put this o).object this = o := Function.update_self _ _ _

@[simp] theorem put_object_of_ne {h : H} (hne : h ≠ this) (s : State H T)
    (o : Option (Object T)) : (s.put this o).object h = s.object h :=
  Function.update_of_ne hne _ _

theorem put_put (s : State H T) (this : H) (o o' : Option (Object T)) :
    (s.put this o).put this o' = s.put this o' := by
  rw [State.put, State.put, Function.update_idem, State.put]

theorem put_comm (hne : this ≠ other) (s : State H T) (o o' : Option (Object T)) :
    (s.put this o).put other o' = (s.put other o').put this o := by
  simp only [State.put, Function.update_comm hne]

/-- Replacing an object by what it is. -/
theorem put_eq_self {o : Option (Object T)} (hthis : s.object this = o) : s.put this o = s := by
  rw [State.put, ← hthis, Function.update_eq_self]

omit [DecidableEq H] in
/-- An object under construction is none of those that exist. -/
theorem ne_of_object (hthis : s.object this = none) {o : Object T}
    (hother : s.object other = some o) : other ≠ this := by
  rintro rfl
  exact absurd (hother.symm.trans hthis) (Option.some_ne_none o)

/-- `this` comes to contain `v`. -/
def State.engage (s : State H T) (this : H) (v : T) : State H T :=
  { s.put this (some (.of (some v))) with
    constructs := Function.update s.constructs this (s.constructs this + 1) }

/-- `this` comes to contain nothing. -/
def State.disengage (s : State H T) (this : H) : State H T :=
  { s.put this (some (.of none)) with
    destroys := Function.update s.destroys this (s.destroys this + 1) }

/-- The state after the construction of `v` in `this`, which may have failed. -/
def State.constructed (s : State H T) (throws : Bool) (this : H) (v : T) : State H T :=
  if throws then s else s.engage this v

theorem engage_put (s : State H T) (this : H) (o : Option (Object T)) (v : T) :
    (s.put this o).engage this v = s.engage this v := by
  rw [State.engage, put_put]
  rfl

/-! ## Statements -/

omit [DecidableEq H] in
theorem fields_eq {o : Object T} (hthis : s.object this = some o) :
    fields this s = (.ok o, s) := access_ok_iff.mpr ⟨hthis, rfl⟩

omit [DecidableEq H] in
theorem valueOf_eq {v : T} (hthis : s.object this = some (.of (some v))) :
    valueOf this s = (.ok v, s) :=
  access_ok_iff.mpr ⟨by rw [hthis]; rfl, rfl⟩

theorem setValue_eq {old : T} (hthis : s.object this = some (.of (some old))) (v : T) :
    setValue this v s = (.ok (), s.put this (some (.of (some v)))) := by
  rw [setValue, bind_of_ok (fields_eq hthis), bind_of_ok (valueOf_eq hthis)]
  rfl

/-- The flag is set right after the object has been replaced. -/
theorem setHasValue_put (s : State H T) (this : H) (o : Object T) (flag : Bool)
    (constructs destroys : H → Nat) :
    setHasValue this flag ⟨(s.put this (some o)).object, constructs, destroys⟩
      = (.ok (), ⟨(s.put this (some { o with mHasValue := flag })).object, constructs,
          destroys⟩) := by
  have hfields : fields this ⟨(s.put this (some o)).object, constructs, destroys⟩
      = (.ok o, ⟨(s.put this (some o)).object, constructs, destroys⟩) :=
    fields_eq (put_object_self s this (some o))
  rw [setHasValue, bind_of_ok hfields]
  exact congrArg (fun object => (Outcome.ok (), State.mk object constructs destroys))
    (Function.update_idem _ _ _)

omit [DecidableEq H] in
theorem attempt_eq (throws : Bool) (s : State H T) :
    attempt (if throws then some () else none) s = (ended throws, s) := by
  cases throws <;> rfl

/-- `new (&m_storage.value) T(v);` -/
theorem constructValue_eq (hthis : s.object this = some (.of none)) (throws : Bool) (v : T) :
    constructValue throws this v s = (ended throws, if throws then s
      else { s.put this (some ⟨some v, false⟩) with
        constructs := Function.update s.constructs this (s.constructs this + 1) }) := by
  have hempty : ¬ (Object.of (none : Option T)).mStorage.isSome = true := Bool.false_ne_true
  rw [constructValue, bind_of_ok (fields_eq hthis), if_neg hempty]
  cases throws with
  | true => exact bind_of_threw (attempt_eq true s)
  | false => exact bind_of_ok (attempt_eq false s)

/-- `new (&m_storage.value) T(v); m_has_value = true;` -/
theorem constructValue_setHasValue (hthis : s.object this = some (.of none)) (throws : Bool)
    (v : T) : (do constructValue throws this v; setHasValue this true) s
      = (ended throws, s.constructed throws this v) := by
  cases throws with
  | true => exact bind_of_threw (constructValue_eq hthis true v)
  | false =>
      rw [bind_of_ok (constructValue_eq hthis false v), if_neg Bool.false_ne_true]
      exact setHasValue_put s this ⟨some v, false⟩ true _ _

/-- `m_storage.value.~T();` -/
theorem destroyValue_eq {v : T} (hthis : s.object this = some (.of (some v))) :
    destroyValue this s = (.ok (), { s.put this (some ⟨none, true⟩) with
      destroys := Function.update s.destroys this (s.destroys this + 1) }) := by
  rw [destroyValue, bind_of_ok (fields_eq hthis), bind_of_ok (valueOf_eq hthis)]
  rfl

/-- `m_storage.value.~T(); m_has_value = false;` -/
theorem destroyValue_setHasValue {v : T} (hthis : s.object this = some (.of (some v))) :
    (do destroyValue this; setHasValue this false) s = (.ok (), s.disengage this) := by
  rw [bind_of_ok (destroyValue_eq hthis)]
  exact setHasValue_put s this ⟨none, true⟩ false _ _

theorem moveValue_eq {v : T} (hother : s.object other = some (.of (some v)))
    (E : ValueType T) (throws : Bool) : moveValue E throws other s
      = (.ok v, s.put other (some (.of (some (E.left throws v))))) := by
  rw [moveValue, bind_of_ok (valueOf_eq hother), bind_of_ok (setValue_eq hother _)]
  rfl

theorem moveStorage_eq {v : T} {make : Bool → T → T × T}
    (hother : s.object other = some (.of (some v))) (hmake : E.fromStorage = some make)
    (throws : Bool) : moveStorage E throws other s
      = (.ok (make throws v).1, s.put other (some (.of (some (make throws v).2)))) := by
  have hconstructor : (access fun _ => E.fromStorage : Prog (State H T) Unit _) s
      = (.ok make, s) := access_ok_iff.mpr ⟨hmake, rfl⟩
  rw [moveStorage, bind_of_ok (valueOf_eq hother), bind_of_ok hconstructor,
    bind_of_ok (setValue_eq hother _)]
  rfl

theorem assignValue_eq {old : T} (hthis : s.object this = some (.of (some old)))
    (E : ValueType T) (throws : Bool) (v : T) : assignValue E throws this v s
      = (ended throws, s.put this (some (.of (some (E.assigned throws old v))))) := by
  rw [assignValue, bind_of_ok (valueOf_eq hthis), bind_of_ok (setValue_eq hthis _)]
  exact attempt_eq throws _

/-- The members of an object are initialised. -/
theorem initialise_eq (hthis : s.object this = none) :
    (change fun s : State H T => if (s.object this).isNone then
      some (s.put this (some ⟨none, false⟩)) else none : Prog (State H T) Unit Unit) s
      = (.ok (), s.put this (some (.of none))) := by
  rw [change, hthis]
  rfl

/-- A constructor whose body returns. -/
theorem constructor_of_ok {body : Prog (State H T) Unit Unit} (hthis : s.object this = none)
    (hbody : body (s.put this (some (.of none))) = (.ok (), s')) :
    constructor this body s = (.ok (), s') := by
  rw [constructor, bind_of_ok (initialise_eq hthis), hbody]

/-- A constructor whose body throws leaves no object. -/
theorem constructor_of_threw {body : Prog (State H T) Unit Unit} (hthis : s.object this = none)
    (hbody : body (s.put this (some (.of none))) = (.threw (), s')) :
    constructor this body s = (.threw (), s'.put this none) := by
  rw [constructor, bind_of_ok (initialise_eq hthis), hbody]

/-! ## Members -/

/-- What each operation does, `throws` saying whether the call of `T` in it throws. -/
inductive Does (E : ValueType T) (s : State H T) (throws : Bool) :
    Op H T → Outcome Unit Unit → State H T → Prop where
  | construct (this : H) : s.object this = none →
      Does E s throws (.construct this) (.ok ()) (s.put this (some (.of none)))
  | constructFrom (this : H) (v : T) : s.object this = none →
      Does E s throws (.constructFrom this v) (ended throws) (s.constructed throws this v)
  | copyConstructEmpty (this other : H) :
      s.object this = none → s.object other = some (.of none) →
      Does E s throws (.copyConstruct this other) (.ok ()) (s.put this (some (.of none)))
  | copyConstruct (this other : H) (v : T) :
      s.object this = none → s.object other = some (.of (some v)) →
      Does E s throws (.copyConstruct this other) (ended throws) (s.constructed throws this v)
  | moveConstructEmpty (this other : H) :
      s.object this = none → s.object other = some (.of none) →
      Does E s throws (.moveConstruct this other) (.ok ()) (s.put this (some (.of none)))
  | moveConstruct (this other : H) (v : T) :
      s.object this = none → s.object other = some (.of (some v)) →
      Does E s throws (.moveConstruct this other) (ended throws)
        ((s.put other (some (.of (some (E.left throws v))))).constructed throws this v)
  | destructEmpty (this : H) : s.object this = some (.of none) →
      Does E s throws (.destruct this) (.ok ()) (s.put this none)
  | destruct (this : H) (v : T) : s.object this = some (.of (some v)) →
      Does E s throws (.destruct this) (.ok ()) ((s.disengage this).put this none)
  | copyAssignSelf (this : H) : Does E s throws (.copyAssign this this) (.ok ()) s
  | moveAssignSelf (this : H) : Does E s throws (.moveAssign this this) (.ok ()) s
  | copyAssign (this other : H) (v w : T) : this ≠ other →
      s.object this = some (.of (some v)) → s.object other = some (.of (some w)) →
      Does E s throws (.copyAssign this other) (.ok ())
        (if E.nothrowCopyAssignable then s.put this (some (.of (some w))) else s)
  | moveAssign (this other : H) (v w : T) : this ≠ other →
      s.object this = some (.of (some v)) → s.object other = some (.of (some w)) →
      Does E s throws (.moveAssign this other) (E.moveEnded throws)
        ((s.put other (some (.of (some (E.left throws w))))).put this
          (some (.of (some (E.assigned throws v w)))))
  | copyAssignEmpty (this other : H) (v : T) : this ≠ other →
      s.object this = some (.of (some v)) → s.object other = some (.of none) →
      Does E s throws (.copyAssign this other) (.ok ()) (s.disengage this)
  | moveAssignEmpty (this other : H) (v : T) : this ≠ other →
      s.object this = some (.of (some v)) → s.object other = some (.of none) →
      Does E s throws (.moveAssign this other) (.ok ()) (s.disengage this)
  | copyAssignToEmpty (this other : H) (w : T) : this ≠ other →
      s.object this = some (.of none) → s.object other = some (.of (some w)) →
      Does E s throws (.copyAssign this other) (ended throws) (s.constructed throws this w)
  | moveAssignToEmpty (this other : H) (w : T) (make : Bool → T → T × T) : this ≠ other →
      s.object this = some (.of none) → s.object other = some (.of (some w)) →
      E.fromStorage = some make →
      Does E s throws (.moveAssign this other) (E.moveEnded throws)
        ((s.put other (some (.of (some (make throws w).2)))).constructed throws this
          (make throws w).1)
  | copyAssignEmpties (this other : H) : this ≠ other →
      s.object this = some (.of none) → s.object other = some (.of none) →
      Does E s throws (.copyAssign this other) (.ok ()) s
  | moveAssignEmpties (this other : H) : this ≠ other →
      s.object this = some (.of none) → s.object other = some (.of none) →
      Does E s throws (.moveAssign this other) (.ok ()) s

/-- The body of a constructor that constructs a `T`. -/
theorem constructor_place {s₁ : State H T} {body : Prog (State H T) Unit Unit} {v : T}
    (hthis : s.object this = none) (hthis₁ : s₁.object this = none)
    (hbody : body (s.put this (some (.of none)))
      = (ended throws, (s₁.put this (some (.of none))).constructed throws this v)) :
    constructor this body s = (ended throws, s₁.constructed throws this v) := by
  cases throws with
  | true =>
      refine (constructor_of_threw hthis hbody).trans (congrArg (Prod.mk _) ?_)
      show (s₁.put this _).put this none = s₁
      rw [put_put, put_eq_self hthis₁]
  | false =>
      refine (constructor_of_ok hthis hbody).trans (congrArg (Prod.mk _) ?_)
      exact engage_put s₁ this _ v

theorem constructFrom_eq (hthis : s.object this = none) (throws : Bool) (v : T) :
    constructFrom throws this v s = (ended throws, s.constructed throws this v) :=
  constructor_place hthis hthis (constructValue_setHasValue (put_object_self _ _ _) throws v)

theorem copyConstruct_does (hthis : s.object this = none) {k : Option T}
    (hother : s.object other = some (.of k)) : ∃ out s',
      copyConstruct throws this other s = (out, s')
      ∧ Does E s throws (.copyConstruct this other) out s' := by
  have hne := ne_of_object hthis hother
  have hother' : (s.put this (some (.of none))).object other = some (.of k) := by
    rw [put_object_of_ne hne, hother]
  cases k with
  | none =>
      refine ⟨_, _, constructor_of_ok hthis ?_, .copyConstructEmpty this other hthis hother⟩
      rw [bind_of_ok (fields_eq hother')]
      rfl
  | some v =>
      refine ⟨_, _, constructor_place hthis hthis ?_, .copyConstruct this other v hthis hother⟩
      rw [bind_of_ok (fields_eq hother')]
      exact (bind_of_ok (valueOf_eq hother')).trans
        (constructValue_setHasValue (put_object_self _ _ _) throws v)

theorem moveConstruct_does (hthis : s.object this = none) {k : Option T}
    (hother : s.object other = some (.of k)) : ∃ out s',
      moveConstruct E throws this other s = (out, s')
      ∧ Does E s throws (.moveConstruct this other) out s' := by
  have hne := ne_of_object hthis hother
  have hother' : (s.put this (some (.of none))).object other = some (.of k) := by
    rw [put_object_of_ne hne, hother]
  cases k with
  | none =>
      refine ⟨_, _, constructor_of_ok hthis ?_, .moveConstructEmpty this other hthis hother⟩
      rw [bind_of_ok (fields_eq hother')]
      rfl
  | some v =>
      refine ⟨_, _, constructor_place hthis ?_ ?_, .moveConstruct this other v hthis hother⟩
      · rw [put_object_of_ne hne.symm, hthis]
      · have hmoved : ((s.put this (some (.of none))).put other
            (some (.of (some (E.left throws v))))).object this = some (.of none) := by
          rw [put_object_of_ne hne.symm, put_object_self]
        rw [bind_of_ok (fields_eq hother'), put_comm hne]
        exact (bind_of_ok (moveValue_eq hother' E throws)).trans
          (constructValue_setHasValue hmoved throws v)

theorem destruct_does {h : Option T} (hthis : s.object this = some (.of h)) : ∃ s',
    destruct this s = (.ok (), s') ∧ Does E s throws (.destruct this) (.ok ()) s' := by
  cases h with
  | none =>
      refine ⟨_, ?_, .destructEmpty this hthis⟩
      rw [destruct, bind_of_ok (fields_eq hthis)]
      rfl
  | some v =>
      refine ⟨_, ?_, .destruct this v hthis⟩
      rw [destruct, bind_of_ok (fields_eq hthis)]
      refine (bind_of_ok (destroyValue_eq hthis)).trans (congrArg (Prod.mk _) ?_)
      simp only [State.disengage, State.put, Function.update_idem]

theorem copyAssign_does (throws : Bool) {h k : Option T} (hthis : s.object this = some (.of h))
    (hother : s.object other = some (.of k)) : ∃ out s',
      copyAssign E throws this other s = (out, s')
      ∧ Does E s throws (.copyAssign this other) out s' := by
  rw [copyAssign, bind_of_ok (fields_eq hthis), bind_of_ok (fields_eq hother)]
  by_cases hne : this = other
  · subst hne
    exact ⟨_, _, by rw [if_pos rfl]; rfl, .copyAssignSelf this⟩
  rw [if_neg hne]
  match h, k with
  | some v, some w =>
      refine ⟨_, _, ?_, .copyAssign this other v w hne hthis hother⟩
      cases E.nothrowCopyAssignable with
      | true => exact (bind_of_ok (valueOf_eq hother)).trans (assignValue_eq hthis E false w)
      | false => rfl
  | some v, none =>
      exact ⟨_, _, destroyValue_setHasValue hthis, .copyAssignEmpty this other v hne hthis hother⟩
  | none, some w =>
      refine ⟨_, _, ?_, .copyAssignToEmpty this other w hne hthis hother⟩
      exact (bind_of_ok (valueOf_eq hother)).trans (constructValue_setHasValue hthis throws w)
  | none, none => exact ⟨_, _, rfl, .copyAssignEmpties this other hne hthis hother⟩

theorem moveAssign_does (throws : Bool) {h k : Option T} (hcompiles : E.fromStorage.isSome)
    (hthis : s.object this = some (.of h)) (hother : s.object other = some (.of k)) :
    ∃ out s', moveAssign E throws this other s = (out, s')
      ∧ Does E s throws (.moveAssign this other) out s' := by
  obtain ⟨make, hmake⟩ := Option.isSome_iff_exists.mp hcompiles
  rw [moveAssign]
  by_cases hne : this = other
  · subst hne
    refine ⟨_, _, noexceptIf_of_ok ?_, .moveAssignSelf this⟩
    rw [bind_of_ok (fields_eq hthis), bind_of_ok (fields_eq hother), if_pos rfl]
    rfl
  -- what is moved out of `other` leaves `this` as it is
  have hmove : ∀ w, (s.put other (some (.of (some w)))).object this = some (.of h) := by
    intro w
    rw [put_object_of_ne hne, hthis]
  match h, k with
  | some v, some w =>
      refine ⟨_, _, noexceptIf_eq ?_, .moveAssign this other v w hne hthis hother⟩
      rw [bind_of_ok (fields_eq hthis), bind_of_ok (fields_eq hother), if_neg hne]
      exact (bind_of_ok (moveValue_eq hother E throws)).trans
        (assignValue_eq (hmove _) E throws w)
  | some v, none =>
      refine ⟨_, _, noexceptIf_of_ok ?_, .moveAssignEmpty this other v hne hthis hother⟩
      rw [bind_of_ok (fields_eq hthis), bind_of_ok (fields_eq hother), if_neg hne]
      exact destroyValue_setHasValue hthis
  | none, some w =>
      refine ⟨_, _, noexceptIf_eq ?_, .moveAssignToEmpty this other w make hne hthis hother hmake⟩
      rw [bind_of_ok (fields_eq hthis), bind_of_ok (fields_eq hother), if_neg hne]
      exact (bind_of_ok (moveStorage_eq hother hmake throws)).trans
        (constructValue_setHasValue (hmove _) throws _)
  | none, none =>
      refine ⟨_, _, noexceptIf_of_ok ?_, .moveAssignEmpties this other hne hthis hother⟩
      rw [bind_of_ok (fields_eq hthis), bind_of_ok (fields_eq hother), if_neg hne]
      rfl

/-- **Every allowed operation on objects whose flag agrees does what `Does` says.** -/
theorem exec_does (hflag : ∀ h o, s.object h = some o → o.mStorage.isSome = o.mHasValue)
    (hallowed : Allowed E s op) :
    ∃ out s', exec E throws op s = (out, s') ∧ Does E s throws op out s' := by
  have hof : ∀ h, s.object h ≠ none → ∃ v, s.object h = some (.of v) := by
    intro h hsome
    obtain ⟨o, ho⟩ := Option.ne_none_iff_exists'.mp hsome
    exact ⟨o.mStorage, ho.trans (congrArg some (Object.eq_of (hflag h o ho)))⟩
  cases op with
  | construct this =>
      exact ⟨_, _, constructor_of_ok hallowed rfl, .construct this hallowed⟩
  | constructFrom this v =>
      exact ⟨_, _, constructFrom_eq hallowed throws v, .constructFrom this v hallowed⟩
  | copyConstruct this other =>
      obtain ⟨k, hother⟩ := hof other hallowed.2
      exact copyConstruct_does hallowed.1 hother
  | moveConstruct this other =>
      obtain ⟨k, hother⟩ := hof other hallowed.2
      exact moveConstruct_does hallowed.1 hother
  | copyAssign this other =>
      obtain ⟨h, hthis⟩ := hof this hallowed.1
      obtain ⟨k, hother⟩ := hof other hallowed.2
      exact copyAssign_does throws hthis hother
  | moveAssign this other =>
      obtain ⟨h, hthis⟩ := hof this hallowed.2.1
      obtain ⟨k, hother⟩ := hof other hallowed.2.2
      exact moveAssign_does throws hallowed.1 hthis hother
  | destruct this =>
      obtain ⟨h, hthis⟩ := hof this hallowed
      obtain ⟨s', hrun, hdoes⟩ := destruct_does hthis
      exact ⟨_, s', hrun, hdoes⟩

end Optional
