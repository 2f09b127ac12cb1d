import CppPlayground.Optional.Lifetime

/-! # `Optional`: what an assignment transfers

    What a caller sees of an object are the answers of `has_value()` and `value()`.  After
    `a = b` those of `a` should be those of `b`.  Two branches fail to see to it: the copy
    assignment of a `T` to a `T` does nothing unless it cannot throw, and the move
    assignment to an empty object passes the union `other.m_storage` to the constructor of
    `T` instead of the `T` in it. -/

namespace Optional

open Program

variable {H T : Type} [DecidableEq H] {E : ValueType T} {s s' : State H T} {this other : H}
  {throws : Bool} {h k : Option T}

/-- What `has_value()` and `value()` answer. -/
def State.answers (s : State H T) (this : H) : Outcome Unit Bool × Outcome Unit T :=
  ((hasValue this s).1, (value this s).1)

omit [DecidableEq H] in
theorem answers_of (hthis : s.object this = some (.of h)) :
    s.answers this = (.ok h.isSome, h.elim (.threw ()) .ok) := by
  have hhas : hasValue this s = (.ok h.isSome, s) := by
    rw [hasValue, bind_of_ok (fields_eq hthis)]
    rfl
  have hvalue : value this s = (h.elim (.threw ()) .ok, s) := by
    rw [value, bind_of_ok (fields_eq hthis)]
    cases h with
    | none => rfl
    | some v => exact valueOf_eq hthis
  rw [State.answers, hhas, hvalue]

omit [DecidableEq H] in
/-- Two objects answer alike exactly if they contain the same. -/
theorem answers_eq_iff {t : State H T} (hthis : s.object this = some (.of h))
    (hother : t.object other = some (.of k)) :
    s.answers this = t.answers other ↔ h = k := by
  rw [answers_of hthis, answers_of hother]
  constructor
  · intro heq
    have hvalues := congrArg Prod.snd heq
    cases h <;> cases k <;> simp_all
  · rintro rfl
    rfl

/-! ## What the assignments leave in the two objects -/

omit [DecidableEq H] in
/-- An object contains one thing. -/
theorem contains_unique (hthis : s.object this = some (.of h))
    (hthis' : s.object this = some (.of k)) : h = k :=
  congrArg Object.mStorage (Option.some.inj (hthis.symm.trans hthis'))

theorem ended_ok (hended : ended throws = .ok ()) : throws = false := by
  cases throws with
  | true => exact absurd hended (by simp [ended])
  | false => rfl

theorem engage_object (s : State H T) (this : H) (v : T) :
    (s.engage this v).object this = some (.of (some v)) := put_object_self s this _

theorem disengage_object (s : State H T) (this : H) :
    (s.disengage this).object this = some (.of none) := put_object_self s this _

/-- What `this` contains after a copy assignment that returns: what `other` contains, except
    that of two engaged objects each keeps its value if `T` may throw. -/
def ValueType.copied (E : ValueType T) (h k : Option T) : Option T :=
  if h.isSome ∧ k.isSome ∧ ¬ E.nothrowCopyAssignable then h else k

theorem copyAssign_leaves (hne : this ≠ other) (hthis : s.object this = some (.of h))
    (hother : s.object other = some (.of k)) {out : Outcome Unit Unit} (hout : out = .ok ())
    (hdoes : Does E s throws (.copyAssign this other) out s') :
    s'.object this = some (.of (E.copied h k)) ∧ s'.object other = s.object other := by
  cases hdoes with
  | copyAssignSelf => exact absurd rfl hne
  | copyAssign _ _ v w _ hthis' hother' =>
      obtain rfl := contains_unique hthis hthis'
      obtain rfl := contains_unique hother hother'
      cases hE : E.nothrowCopyAssignable with
      | true => simp [ValueType.copied, hE, put_object_of_ne hne.symm]
      | false => simp [ValueType.copied, hE, hthis]
  | copyAssignEmpty _ _ v _ hthis' hother' =>
      obtain rfl := contains_unique hother hother'
      have hcopied : E.copied h none = none := by simp [ValueType.copied]
      rw [hcopied]
      exact ⟨disengage_object s this, put_object_of_ne hne.symm s _⟩
  | copyAssignToEmpty _ _ w _ hthis' hother' =>
      obtain rfl := contains_unique hthis hthis'
      obtain rfl := contains_unique hother hother'
      obtain rfl := ended_ok hout
      exact ⟨engage_object s this w, put_object_of_ne hne.symm s _⟩
  | copyAssignEmpties _ _ _ hthis' hother' =>
      obtain rfl := contains_unique hother hother'
      have hcopied : E.copied h none = none := by simp [ValueType.copied]
      rw [hcopied]
      exact ⟨hthis', rfl⟩

/-- What `this` contains after a move assignment that returns: what `other` contained,
    except that an empty object gets what the constructor of `T` makes of the union. -/
def moved (make : Bool → T → T × T) (h k : Option T) : Option T :=
  if h.isSome then k else k.map fun w => (make false w).1

theorem moveAssign_leaves {make : Bool → T → T × T} (hmake : E.fromStorage = some make)
    (hne : this ≠ other) (hthis : s.object this = some (.of h))
    (hother : s.object other = some (.of k)) {out : Outcome Unit Unit} (hout : out = .ok ())
    (hdoes : Does E s throws (.moveAssign this other) out s') :
    s'.object this = some (.of (moved make h k)) := by
  cases hdoes with
  | moveAssignSelf => exact absurd rfl hne
  | moveAssign _ _ v w _ hthis' hother' =>
      obtain rfl := contains_unique hthis hthis'
      obtain rfl := contains_unique hother hother'
      obtain rfl := ended_ok (guarded_ok_iff.mp hout)
      exact put_object_self _ this _
  | moveAssignEmpty _ _ v _ hthis' hother' =>
      obtain rfl := contains_unique hthis hthis'
      obtain rfl := contains_unique hother hother'
      exact disengage_object s this
  | moveAssignToEmpty _ _ w make' _ hthis' hother' hmake' =>
      obtain rfl := contains_unique hthis hthis'
      obtain rfl := contains_unique hother hother'
      obtain rfl := ended_ok (guarded_ok_iff.mp hout)
      obtain rfl := Option.some.inj (hmake.symm.trans hmake')
      exact engage_object _ this _
  | moveAssignEmpties _ _ _ hthis' hother' =>
      obtain rfl := contains_unique hthis hthis'
      obtain rfl := contains_unique hother hother'
      exact hthis'

/-! ## When the value is transferred -/

/-- After `a = b` the two objects answer alike and `b` is unchanged; `a = a` changes
    nothing. -/
structure CopyTransfers (E : ValueType T) (s : State H T) (this other : H) : Prop where
  answers : ∀ throws s', copyAssign E throws this other s = (.ok (), s') →
    s'.answers this = s'.answers other ∧ s'.object other = s.object other
  self : this = other → ∀ throws, copyAssign E throws this other s = (.ok (), s)

/-- `a = std::move(b)` compiles, and after it `a` answers what `b` answered;
    `a = std::move(a)` changes nothing. -/
structure MoveTransfers (E : ValueType T) (s : State H T) (this other : H) : Prop where
  compiles : E.fromStorage.isSome
  answers : this ≠ other → ∀ throws s', moveAssign E throws this other s = (.ok (), s') →
    s'.answers this = s.answers other
  self : this = other → ∀ throws, moveAssign E throws this other s = (.ok (), s)

/-- The copy assignment does not come to the empty branch, or has nothing to do there. -/
def CopyMeets (E : ValueType T) (this other : H) (h k : Option T) : Prop :=
  E.nothrowCopyAssignable ∨ this = other ∨ h = none ∨ k = none ∨ h = k

/-- `T` has a constructor from the union, and the move assignment does not use it or it
    makes the value in the union. -/
def MoveMeets (E : ValueType T) (this other : H) (h k : Option T) : Prop :=
  ∃ make, E.fromStorage = some make
    ∧ (this = other ∨ h ≠ none ∨ ∀ w, k = some w → (make false w).1 = w)

theorem copied_eq_iff : E.copied h k = k
    ↔ E.nothrowCopyAssignable ∨ h = none ∨ k = none ∨ h = k := by
  cases h <;> cases k <;> cases hE : E.nothrowCopyAssignable <;> simp [ValueType.copied, hE]

theorem moved_eq_iff {make : Bool → T → T × T} : moved make h k = k
    ↔ h ≠ none ∨ ∀ w, k = some w → (make false w).1 = w := by
  cases h <;> cases k <;> simp [moved]

/-- Calls of `T` that do not throw let an operation return. -/
theorem Does.ok {op : Op H T} {out : Outcome Unit Unit} (hdoes : Does E s false op out s') :
    out = .ok () := by
  cases hdoes <;> rfl

theorem copyTransfers_self (hthis : s.object this = some (.of h)) :
    CopyTransfers E s this this := by
  have hself : ∀ throws, copyAssign E throws this this s = (.ok (), s) := by
    intro throws
    rw [copyAssign, bind_of_ok (fields_eq hthis), bind_of_ok (fields_eq hthis), if_pos rfl]
    rfl
  refine ⟨?_, fun _ => hself⟩
  intro throws s' hrun
  obtain ⟨-, rfl⟩ := Prod.mk.inj (hrun.symm.trans (hself throws))
  exact ⟨rfl, rfl⟩

theorem copyTransfers_iff (hthis : s.object this = some (.of h))
    (hother : s.object other = some (.of k)) :
    CopyTransfers E s this other ↔ CopyMeets E this other h k := by
  by_cases hne : this = other
  · subst hne
    exact iff_of_true (copyTransfers_self hthis) (Or.inr (Or.inl rfl))
  constructor
  · intro htransfers
    obtain ⟨out, s', hrun, hdoes⟩ := copyAssign_does (E := E) false hthis hother
    obtain ⟨hleft, hkept⟩ := copyAssign_leaves hne hthis hother hdoes.ok hdoes
    have hanswers := (htransfers.answers false s' (hrun.trans (by rw [hdoes.ok]))).1
    have hsame := (answers_eq_iff hleft (hkept.trans hother)).mp hanswers
    rcases copied_eq_iff.mp hsame with hE | hrest
    · exact Or.inl hE
    · exact Or.inr (Or.inr hrest)
  · intro hmeets
    refine ⟨?_, fun heq => absurd heq hne⟩
    intro throws s' hrun
    obtain ⟨out, s'', hrun', hdoes⟩ := copyAssign_does (E := E) throws hthis hother
    obtain ⟨hout, rfl⟩ := Prod.mk.inj (hrun.symm.trans hrun')
    obtain ⟨hleft, hkept⟩ := copyAssign_leaves hne hthis hother hout.symm hdoes
    refine ⟨(answers_eq_iff hleft (hkept.trans hother)).mpr (copied_eq_iff.mpr ?_), hkept⟩
    rcases hmeets with hE | heq | hrest
    · exact Or.inl hE
    · exact absurd heq hne
    · exact Or.inr hrest

theorem moveTransfers_iff (hthis : s.object this = some (.of h))
    (hother : s.object other = some (.of k)) :
    MoveTransfers E s this other ↔ MoveMeets E this other h k := by
  by_cases hne : this = other
  · subst hne
    have hself : ∀ throws, moveAssign E throws this this s = (.ok (), s) := by
      intro throws
      refine noexceptIf_of_ok ?_
      rw [bind_of_ok (fields_eq hthis), bind_of_ok (fields_eq hthis), if_pos rfl]
      rfl
    constructor
    · intro htransfers
      obtain ⟨make, hmake⟩ := Option.isSome_iff_exists.mp htransfers.compiles
      exact ⟨make, hmake, Or.inl rfl⟩
    · rintro ⟨make, hmake, -⟩
      exact ⟨Option.isSome_iff_exists.mpr ⟨make, hmake⟩, absurd rfl, fun _ => hself⟩
  constructor
  · intro htransfers
    obtain ⟨make, hmake⟩ := Option.isSome_iff_exists.mp htransfers.compiles
    obtain ⟨out, s', hrun, hdoes⟩ :=
      moveAssign_does false htransfers.compiles hthis hother
    have hanswers := htransfers.answers hne false s' (hrun.trans (by rw [hdoes.ok]))
    have hleft := moveAssign_leaves hmake hne hthis hother hdoes.ok hdoes
    exact ⟨make, hmake, Or.inr (moved_eq_iff.mp ((answers_eq_iff hleft hother).mp hanswers))⟩
  · rintro ⟨make, hmake, hmeets⟩
    have hcompiles : E.fromStorage.isSome := Option.isSome_iff_exists.mpr ⟨make, hmake⟩
    refine ⟨hcompiles, ?_, fun heq => absurd heq hne⟩
    intro _ throws s' hrun
    obtain ⟨out, s'', hrun', hdoes⟩ := moveAssign_does throws hcompiles hthis hother
    obtain ⟨hout, rfl⟩ := Prod.mk.inj (hrun.symm.trans hrun')
    have hleft := moveAssign_leaves hmake hne hthis hother hout.symm hdoes
    exact (answers_eq_iff hleft hother).mpr (moved_eq_iff.mpr (hmeets.resolve_left hne))

/-- **When an assignment transfers the value**, of the objects an `Optional` can be: each
    empty or engaged, and the two distinct or the same. -/
theorem assignments_transfer_iff (hthis : s.object this = some (.of h))
    (hother : s.object other = some (.of k)) :
    (CopyTransfers E s this other ↔ CopyMeets E this other h k)
      ∧ (MoveTransfers E s this other ↔ MoveMeets E this other h k) :=
  ⟨copyTransfers_iff hthis hother, moveTransfers_iff hthis hother⟩

/-- Two engaged objects, `true` with 1 in it and `false` with 2. -/
def oneAndTwo : State Bool Nat :=
  ⟨fun this => some (.of (some (if this then 1 else 2))), fun _ => 1, fun _ => 0⟩

/-- A `T` whose copy assignment may throw, and which makes of a union what is in it. -/
def mayThrow : ValueType Nat :=
  ⟨fun _ => 0, id, fun old _ => old, false, false, some fun _ v => (v, 0)⟩

theorem oneAndTwo_transfer :
    CopyTransfers { mayThrow with nothrowCopyAssignable := true } oneAndTwo true false
      ∧ MoveTransfers mayThrow oneAndTwo true false :=
  ⟨(assignments_transfer_iff (h := some 1) (k := some 2) rfl rfl).1.mpr (Or.inl rfl),
    (assignments_transfer_iff (h := some 1) (k := some 2) rfl rfl).2.mpr
      ⟨_, rfl, Or.inr (Or.inl (Option.some_ne_none 1))⟩⟩

/-- After `a = b` with 1 in `a` and 2 in `b`, 1 is still in `a`. -/
theorem copyAssign_keeps_old_value : ¬ CopyTransfers mayThrow oneAndTwo true false := by
  intro htransfers
  have hkept : copyAssign mayThrow false true false oneAndTwo = (.ok (), oneAndTwo) := rfl
  have hanswers := (htransfers.answers false oneAndTwo hkept).1
  exact absurd ((answers_eq_iff rfl rfl).mp hanswers) (by decide)

end Optional
