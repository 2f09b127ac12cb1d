import CppPlayground.Optional.Steps

/-! # `Optional`: the flag and the lifetime of the value agree

    Between operations, a `T` is in the storage exactly if the flag is set, and every `T`
    that has been constructed in an object has been destroyed, except for the one that is
    there.  An operation replaces what objects contain, engages an object or disengages
    it; each of these keeps the invariant. -/

namespace Optional

open Program Transition

variable {H T : Type} [DecidableEq H] {E : ValueType T} {s s' : State H T} {this other : H}
  {throws : Bool} {op : Op H T} {out : Outcome Unit Unit} {tr : List (Event H T)}

/-- The `T` in the storage of `h`. -/
def State.stored (s : State H T) (h : H) : Option T := (s.object h).bind Object.mStorage

/-- Flag and storage agree, and a `T` not destroyed is one in the storage. -/
structure Agrees (s : State H T) : Prop where
  flag : ∀ h o, s.object h = some o → o.mStorage.isSome = o.mHasValue
  counted : ∀ h, s.constructs h = s.destroys h + if (s.stored h).isSome then 1 else 0

omit [DecidableEq H] in
theorem stored_of {v : Option T} (hthis : s.object this = some (.of v)) : s.stored this = v := by
  rw [State.stored, hthis]
  rfl

omit [DecidableEq H] in
theorem stored_none (hthis : s.object this = none) : s.stored this = none := by
  rw [State.stored, hthis, Option.bind_none]

/-- What is stored after an object has been replaced. -/
theorem stored_put (s : State H T) (this : H) (v : Option (Option T)) :
    (s.put this (v.map .of)).stored = Function.update s.stored this v.join := by
  funext h
  by_cases hh : h = this
  · subst hh
    rw [State.stored, put_object_self, Function.update_self]
    cases v <;> rfl
  · rw [State.stored, put_object_of_ne hh, Function.update_of_ne hh, State.stored]

/-- The flags still agree after an object has been replaced by one whose flag agrees. -/
theorem flag_put (hflag : ∀ h o, s.object h = some o → o.mStorage.isSome = o.mHasValue)
    (this : H) (v : Option (Option T)) :
    ∀ h o, (s.put this (v.map .of)).object h = some o → o.mStorage.isSome = o.mHasValue := by
  intro h o ho
  by_cases hh : h = this
  · subst hh
    rw [put_object_self] at ho
    obtain ⟨w, -, rfl⟩ := Option.map_eq_some_iff.mp ho
    rfl
  · rw [put_object_of_ne hh] at ho
    exact hflag h o ho

/-- Replacing an object by one that stores a `T` if it did. -/
theorem Agrees.put (hs : Agrees s) (this : H) (v : Option (Option T))
    (hsame : (s.stored this).isSome = v.join.isSome) : Agrees (s.put this (v.map .of)) where
  flag := flag_put hs.flag this v
  counted h := by
    show s.constructs h = s.destroys h + _
    rw [hs.counted h, stored_put]
    by_cases hh : h = this
    · subst hh
      rw [Function.update_self, hsame]
    · rw [Function.update_of_ne hh]

/-- A new object contains nothing. -/
theorem Agrees.begin (hs : Agrees s) (hnone : s.object this = none) :
    Agrees (s.put this (some (.of none))) := by
  refine hs.put this (some none) ?_
  rw [stored_none hnone]
  rfl

/-- Another value for the `T` that is there. -/
theorem Agrees.replace (hs : Agrees s) {v : T} (hthis : s.object this = some (.of (some v)))
    (w : T) : Agrees (s.put this (some (.of (some w)))) := by
  refine hs.put this (some (some w)) ?_
  rw [stored_of hthis]
  rfl

/-- An object that contains nothing goes away. -/
theorem Agrees.finish (hs : Agrees s) (hthis : s.object this = some (.of none)) :
    Agrees (s.put this none) := by
  refine hs.put this none ?_
  rw [stored_of hthis]
  rfl

theorem Agrees.engage (hs : Agrees s) (hempty : s.stored this = none) (v : T) :
    Agrees (s.engage this v) where
  flag := flag_put hs.flag this (some (some v))
  counted h := by
    show Function.update s.constructs this _ h = s.destroys h
      + if ((s.put this ((some (some v)).map .of)).stored h).isSome then 1 else 0
    rw [stored_put]
    by_cases hh : h = this
    · subst hh
      rw [Function.update_self, Function.update_self, hs.counted h, hempty]
      rfl
    · rw [Function.update_of_ne hh, Function.update_of_ne hh, hs.counted h]

theorem Agrees.disengage (hs : Agrees s) {v : T} (hfull : s.stored this = some v) :
    Agrees (s.disengage this) where
  flag := flag_put hs.flag this (some none)
  counted h := by
    show s.constructs h = Function.update s.destroys this _ h
      + if ((s.put this ((some none).map .of)).stored h).isSome then 1 else 0
    rw [stored_put]
    by_cases hh : h = this
    · subst hh
      rw [Function.update_self, Function.update_self, hs.counted h, hfull]
      rfl
    · rw [Function.update_of_ne hh, Function.update_of_ne hh, hs.counted h]

/-- The construction of a `T` in an object that stores none, if it does not throw. -/
theorem Agrees.constructed (hs : Agrees s) (hempty : s.stored this = none) (throws : Bool)
    (v : T) : Agrees (s.constructed throws this v) := by
  cases throws with
  | true => exact hs
  | false => exact hs.engage hempty v

theorem ended_cases (throws : Bool) : ended throws = .ok () ∨ ended throws = .threw () := by
  cases throws with
  | true => exact Or.inr rfl
  | false => exact Or.inl rfl

theorem moveEnded_cases (hreturns : E.moveEnded throws ≠ .diverged) :
    E.moveEnded throws = .ok () ∨ E.moveEnded throws = .threw () := by
  cases throws with
  | true => exact Or.inr (guarded_threw hreturns)
  | false => exact Or.inl rfl

/-- **Each operation keeps the agreement, and returns or throws** if it does not end the
    program. -/
theorem Agrees.does (hs : Agrees s) (hdoes : Does E s throws op out s')
    (hreturns : out ≠ .diverged) : Agrees s' ∧ (out = .ok () ∨ out = .threw ()) := by
  cases hdoes with
  | construct this hnone => exact ⟨hs.begin hnone, Or.inl rfl⟩
  | constructFrom this v hnone =>
      exact ⟨hs.constructed (stored_none hnone) throws v, ended_cases throws⟩
  | copyConstructEmpty this other hnone hother => exact ⟨hs.begin hnone, Or.inl rfl⟩
  | copyConstruct this other v hnone hother =>
      exact ⟨hs.constructed (stored_none hnone) throws v, ended_cases throws⟩
  | moveConstructEmpty this other hnone hother => exact ⟨hs.begin hnone, Or.inl rfl⟩
  | moveConstruct this other v hnone hother =>
      refine ⟨(hs.replace hother _).constructed (stored_none ?_) throws v, ended_cases throws⟩
      rw [put_object_of_ne (ne_of_object hnone hother).symm, hnone]
  | destructEmpty this hthis => exact ⟨hs.finish hthis, Or.inl rfl⟩
  | destruct this v hthis =>
      have hempty : (s.disengage this).object this = some (.of none) := put_object_self s this _
      exact ⟨(hs.disengage (stored_of hthis)).finish hempty, Or.inl rfl⟩
  | copyAssignSelf this => exact ⟨hs, Or.inl rfl⟩
  | moveAssignSelf this => exact ⟨hs, Or.inl rfl⟩
  | copyAssign this other v w hne hthis hother =>
      refine ⟨?_, Or.inl rfl⟩
      split
      · exact hs.replace hthis w
      · exact hs
  | moveAssign this other v w hne hthis hother =>
      refine ⟨(hs.replace hother _).replace (v := v) ?_ _, moveEnded_cases hreturns⟩
      rw [put_object_of_ne hne, hthis]
  | copyAssignEmpty this other v hne hthis hother =>
      exact ⟨hs.disengage (stored_of hthis), Or.inl rfl⟩
  | moveAssignEmpty this other v hne hthis hother =>
      exact ⟨hs.disengage (stored_of hthis), Or.inl rfl⟩
  | copyAssignToEmpty this other w hne hthis hother =>
      exact ⟨hs.constructed (stored_of hthis) throws w, ended_cases throws⟩
  | moveAssignToEmpty this other w make hne hthis hother hmake =>
      refine ⟨(hs.replace hother _).constructed (stored_of (v := none) ?_) throws _,
        moveEnded_cases hreturns⟩
      rw [put_object_of_ne hne, hthis]
  | copyAssignEmpties this other hne hthis hother => exact ⟨hs, Or.inl rfl⟩
  | moveAssignEmpties this other hne hthis hother => exact ⟨hs, Or.inl rfl⟩

/-! ## Whole runs -/

theorem run_agrees (h : Run (optionals E) tr s) :
    Agrees s ∧ ∀ a ∈ tr, a.2.2 = .ok () ∨ a.2.2 = .threw () := by
  refine Run.invariant (S := optionals E)
    (I := fun tr s => Agrees s ∧ ∀ a ∈ tr, a.2.2 = .ok () ∨ a.2.2 = .threw ()) ?_ ?_ h
  · rintro s rfl
    exact ⟨⟨nofun, fun h => rfl⟩, nofun⟩
  · rintro tr s ⟨op, throws, out⟩ s' - ⟨hs, hended⟩ ⟨hallowed, hrun, hreturns⟩
    obtain ⟨out', s'', hrun', hdoes⟩ := exec_does hs.flag hallowed
    obtain ⟨rfl, rfl⟩ := Prod.mk.inj (hrun.symm.trans hrun')
    refine ⟨(hs.does hdoes hreturns).1, ?_⟩
    intro a ha
    rcases List.mem_append.mp ha with hold | hnew
    · exact hended a hold
    · obtain rfl := List.mem_singleton.mp hnew
      exact (hs.does hdoes hreturns).2

/-- Flag and storage agree, `T` and `Optional` have matching lifetimes, and no operation
    ran into undefined behaviour: none constructed a `T` over a `T` or destroyed one that
    was not there. -/
structure LifetimesMatch (tr : List (Event H T)) (s : State H T) : Prop where
  flag : ∀ h o, s.object h = some o → (o.mStorage.isSome ↔ o.mHasValue = true)
  counted : ∀ h o, s.object h = some o →
    s.constructs h = s.destroys h + if o.mHasValue then 1 else 0
  settled : ∀ h, s.object h = none → s.constructs h = s.destroys h
  defined : ∀ a ∈ tr, a.2.2 = .ok () ∨ a.2.2 = .threw ()

/-- **Flag and storage agree in every run**, whichever calls of `T` throw. -/
theorem runs_lifetimes_match (h : Run (optionals E) tr s) : LifetimesMatch tr s where
  flag h' o ho := by rw [(run_agrees h).1.flag h' o ho]
  counted h' o ho := by
    rw [(run_agrees h).1.counted h', State.stored, ho, Option.bind_some,
      (run_agrees h).1.flag h' o ho]
  settled h' hnone := by
    rw [(run_agrees h).1.counted h', stored_none hnone]
    rfl
  defined := (run_agrees h).2

/-- The next state, if the operation is allowed and ends as the event says. -/
def next (E : ValueType T) (s : State H T) (a : Event H T) : Option (State H T) :=
  if Allowed E s a.1 ∧ (exec E a.2.1 a.1 s).1 = a.2.2 ∧ a.2.2 ≠ .diverged then
    some (exec E a.2.1 a.1 s).2
  else none

theorem next_step {a : Event H T} (hnext : next E s a = some s') :
    (optionals E).step s a s' := by
  obtain ⟨⟨hallowed, hout, hreturns⟩, hs'⟩ := Option.ite_none_right_eq_some.mp hnext
  exact ⟨hallowed, Prod.ext hout (Option.some.inj hs'), hreturns⟩

/-- A construction and two assignments fail, and the objects are assigned to themselves and
    to each other. -/
def throwingRun : List (Event Bool Nat) :=
  [(.construct true, false, .ok ()), (.constructFrom false 7, true, .threw ()),
    (.constructFrom false 7, false, .ok ()), (.copyAssign true false, true, .threw ()),
    (.copyAssign true false, false, .ok ()), (.moveAssign true false, true, .threw ()),
    (.copyAssign true true, false, .ok ()), (.moveAssign false true, false, .ok ()),
    (.destruct true, false, .ok ()), (.destruct false, false, .ok ())]

/-- A `T` whose moves may throw, and which makes of a union what is in it. -/
def throwingMoves : ValueType Nat :=
  ⟨fun _ => 0, id, fun old _ => old, true, false, some fun _ v => (v, 0)⟩

theorem throwingRun_lifetimes_match : ∃ s, Run (optionals throwingMoves) throwingRun s
    ∧ s.constructs true = 1 ∧ s.destroys true = 1 ∧ LifetimesMatch throwingRun s := by
  obtain ⟨s, hfollow, hconstructs, hdestroys⟩ : ∃ s, follow (next throwingMoves)
        (⟨fun _ => none, fun _ => 0, fun _ => 0⟩ : State Bool Nat) throwingRun = some s
      ∧ s.constructs true = 1 ∧ s.destroys true = 1 := ⟨_, rfl, rfl, rfl⟩
  have hrun := run_of_follow (S := optionals _) (fun _ _ _ => next_step) rfl hfollow
  exact ⟨s, hrun, hconstructs, hdestroys, runs_lifetimes_match hrun⟩

end Optional
