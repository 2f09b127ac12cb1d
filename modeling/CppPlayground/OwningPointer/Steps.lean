import CppPlayground.OwningPointer.Model

/-! # `OwningPointer`: what an operation does

    `Does` lists the operations with the fields they leave and the deleter calls they
    make; `exec_does` derives it from the statements of the members, and everything else
    about whole runs is derived from `Does`. -/

namespace OwningPointer

open Program Transition

variable {H A D : Type} [DecidableEq H] {E : DeleterType D A} {s s' s₁ : State H A D}
  {this other : H} {throws : Bool}

/-! ## Fields -/

@[simp] theorem set_handle_self (s : State H A D) (this : H) (h : Option (Handle D A)) :
    (s.set this h).handle this = h := Function.update_self _ _ _

@[simp] theorem set_handle_of_ne {k : H} (hne : k ≠ this) (s : State H A D)
    (h : Option (Handle D A)) : (s.set this h).handle k = s.handle k :=
  Function.update_of_ne hne _ _

@[simp] theorem set_set (s : State H A D) (this : H) (h k : Option (Handle D A)) :
    (s.set this h).set this k = s.set this k := by
  rw [State.set, State.set, Function.update_idem, State.set]

theorem set_comm (hne : this ≠ other) (s : State H A D) (h k : Option (Handle D A)) :
    (s.set this h).set other k = (s.set other k).set this h := by
  simp only [State.set, Function.update_comm hne]

omit [DecidableEq H] in
theorem held_of_handle {h : Handle D A} (hthis : s.handle this = some h) :
    s.held this = h.mPtr := by
  rw [State.held, hthis, Option.bind_some]

omit [DecidableEq H] in
theorem held_of_none (hthis : s.handle this = none) : s.held this = none := by
  rw [State.held, hthis, Option.bind_none]

theorem held_set (s : State H A D) (this : H) (h : Option (Handle D A)) :
    (s.set this h).held = Function.update s.held this (h.bind Handle.mPtr) := by
  funext k
  by_cases hk : k = this
  · subst hk
    rw [Function.update_self, State.held, set_handle_self]
  · rw [Function.update_of_ne hk, State.held, set_handle_of_ne hk, State.held]

/-- A change of a deleter changes nothing that is held. -/
theorem held_set_of_ptr {h k : Handle D A} (hthis : s.handle this = some h)
    (hptr : k.mPtr = h.mPtr) : (s.set this (some k)).held = s.held := by
  rw [held_set, Option.bind_some, hptr]
  refine Function.update_eq_self_iff.mpr ?_
  rw [State.held, hthis, Option.bind_some]

/-- Assigning to a handle what it has. -/
theorem set_eq_self {h : Handle D A} (hthis : s.handle this = some h) :
    s.set this (some h) = s := by
  rw [State.set, ← hthis, Function.update_eq_self]

/-- The state after `m_deleter(m_ptr)`, if `m_ptr` is not null. -/
def State.record (s : State H A D) (this : H) (deleter : D) (ptr : Option A) : State H A D :=
  if ptr = none then s else { s with calls := s.calls ++ [⟨this, deleter, ptr, s.held⟩] }

/-- The deleter after this call. -/
def DeleterType.after (E : DeleterType D A) (deleter : D) (ptr : Option A) : D :=
  if ptr = none then deleter else E.called deleter ptr

omit [DecidableEq H] in
@[simp] theorem record_handle (s : State H A D) (this : H) (deleter : D) (ptr : Option A) :
    (s.record this deleter ptr).handle = s.handle := by
  rw [State.record]
  split <;> rfl

omit [DecidableEq H] in
@[simp] theorem record_held (s : State H A D) (this : H) (deleter : D) (ptr : Option A) :
    (s.record this deleter ptr).held = s.held := by
  funext k
  rw [State.held, record_handle, State.held]

/-- A change that leaves what is held commutes with the record of a call. -/
theorem record_set {h : Option (Handle D A)} (hheld : (s.set other h).held = s.held)
    (this : H) (deleter : D) (ptr : Option A) :
    (s.set other h).record this deleter ptr = (s.record this deleter ptr).set other h := by
  by_cases hptr : ptr = none
  · rw [State.record, State.record, if_pos hptr, if_pos hptr]
  · rw [State.record, State.record, if_neg hptr, if_neg hptr, hheld]
    rfl

/-! ## Statements that return -/

omit [DecidableEq H] in
theorem fields_ok {h : Handle D A} :
    fields this s = (.ok h, s') ↔ s.handle this = some h ∧ s = s' := access_ok_iff

theorem setPtr_ok {ptr : Option A} : setPtr this ptr s = (.ok (), s')
    ↔ ∃ h, s.handle this = some h ∧ s.set this (some ⟨h.mDeleter, ptr⟩) = s' := by
  rw [setPtr, bind_ok_iff]
  constructor
  · rintro ⟨h, s₁, hread, hwrite⟩
    obtain ⟨hthis, rfl⟩ := fields_ok.mp hread
    exact ⟨h, hthis, congrArg Prod.snd hwrite⟩
  · rintro ⟨h, hthis, rfl⟩
    exact ⟨h, s, fields_ok.mpr ⟨hthis, rfl⟩, rfl⟩

theorem setDeleter_ok {deleter : D} : setDeleter this deleter s = (.ok (), s')
    ↔ ∃ h, s.handle this = some h ∧ s.set this (some ⟨deleter, h.mPtr⟩) = s' := by
  rw [setDeleter, bind_ok_iff]
  constructor
  · rintro ⟨h, s₁, hread, hwrite⟩
    obtain ⟨hthis, rfl⟩ := fields_ok.mp hread
    exact ⟨h, hthis, congrArg Prod.snd hwrite⟩
  · rintro ⟨h, hthis, rfl⟩
    exact ⟨h, s, fields_ok.mpr ⟨hthis, rfl⟩, rfl⟩

theorem newHandle_ok {deleter : D} {ptr : Option A} : newHandle this deleter ptr s = (.ok (), s')
    ↔ s.handle this = none ∧ s.set this (some ⟨deleter, ptr⟩) = s' := by
  rw [newHandle, change]
  cases hthis : s.handle this <;> simp

theorem moveDeleter_ok {deleter : D} (h : moveDeleter E other s = (.ok deleter, s')) :
    ∃ k, s.handle other = some k ∧ k.mDeleter = deleter
      ∧ s' = s.set other (some ⟨E.moved deleter, k.mPtr⟩) := by
  rw [moveDeleter, bind_ok_iff] at h
  obtain ⟨k, s₁, hread, h⟩ := h
  obtain ⟨hother, rfl⟩ := fields_ok.mp hread
  obtain ⟨_, s₂, hset, hret⟩ := bind_ok_iff.mp h
  obtain ⟨k', hother', rfl⟩ := setDeleter_ok.mp hset
  obtain rfl : k = k' := Option.some.inj (hother.symm.trans hother')
  obtain ⟨rfl, rfl⟩ := pure_ok_iff.mp hret
  exact ⟨k, hother, rfl, rfl⟩

theorem callDeleter_ok (h : callDeleter E throws this s = (.ok (), s')) :
    throws = false ∧ ∃ k, s.handle this = some k ∧ s' = State.set
      { s with calls := s.calls ++ [⟨this, k.mDeleter, k.mPtr, s.held⟩] } this
      (some ⟨E.called k.mDeleter k.mPtr, k.mPtr⟩) := by
  rw [callDeleter, bind_ok_iff] at h
  obtain ⟨k, s₁, hread, h⟩ := h
  obtain ⟨hthis, rfl⟩ := fields_ok.mp hread
  obtain ⟨_, s₂, hrecord, h⟩ := bind_ok_iff.mp h
  obtain rfl := congrArg Prod.snd hrecord
  obtain ⟨_, s₃, hset, hret⟩ := bind_ok_iff.mp h
  obtain ⟨k', hthis', rfl⟩ := setDeleter_ok.mp hset
  obtain rfl : k = k' := Option.some.inj (hthis.symm.trans hthis')
  obtain ⟨hquiet, rfl⟩ := attempt_ok_iff.mp hret
  exact ⟨by simpa using hquiet, k, hthis, rfl⟩

/-! ## Members -/

/-- The state after `if (m_ptr != nullptr) { m_deleter(m_ptr); m_ptr = nullptr; }`, for a
    handle with the fields `h`. -/
def State.cleared (E : DeleterType D A) (s : State H A D) (this : H) (h : Handle D A) :
    State H A D :=
  (s.record this h.mDeleter h.mPtr).set this (some ⟨E.after h.mDeleter h.mPtr, none⟩)

/-- The state after `other` has handed its fields to `this`. -/
def State.handedOver (E : DeleterType D A) (s : State H A D) (this other : H) (deleter : D)
    (k : Handle D A) : State H A D :=
  (s.set this (some ⟨deleter, k.mPtr⟩)).set other (some ⟨E.moved k.mDeleter, none⟩)

/-- What each operation does. -/
inductive Does (E : DeleterType D A) (s : State H A D) :
    Op H A D → Option A → State H A D → Prop where
  | construct (this : H) : s.handle this = none →
      Does E s (.construct this) none (s.set this (some ⟨E.dflt, none⟩))
  | constructFrom (this : H) (ptr : Option A) : s.handle this = none →
      Does E s (.constructFrom this ptr) none (s.set this (some ⟨E.dflt, ptr⟩))
  | constructWith (this : H) (ptr : Option A) (deleter : D) : s.handle this = none →
      Does E s (.constructWith this ptr deleter) none (s.set this (some ⟨deleter, ptr⟩))
  | moveConstruct (this other : H) (k : Handle D A) : s.handle this = none →
      s.handle other = some k → this ≠ other →
      Does E s (.moveConstruct this other) none (s.handedOver E this other k.mDeleter k)
  | moveAssignSelf (this : H) : Does E s (.moveAssign this this) none s
  | moveAssign (this other : H) (h k : Handle D A) : this ≠ other →
      s.handle this = some h → s.handle other = some k →
      Does E s (.moveAssign this other) none
        ((s.record this k.mDeleter h.mPtr).handedOver E this other
          (E.after k.mDeleter h.mPtr) k)
  | assignNull (this : H) (h : Handle D A) : s.handle this = some h →
      Does E s (.assignNull this) none (s.cleared E this h)
  | release (this : H) (h : Handle D A) : s.handle this = some h →
      Does E s (.release this) h.mPtr (s.set this (some ⟨h.mDeleter, none⟩))
  | destruct (this : H) (h : Handle D A) : s.handle this = some h →
      Does E s (.destruct this) none ((s.cleared E this h).set this none)

theorem deleteObject_ok (hrun : deleteObject E throws this s = (.ok (), s')) :
    ∃ h, s.handle this = some h ∧ s' = s.cleared E this h
      ∧ (h.mPtr = none ∨ throws = false) := by
  rw [deleteObject, bind_ok_iff] at hrun
  obtain ⟨h, s₁, hread, hrun⟩ := hrun
  obtain ⟨hthis, rfl⟩ := fields_ok.mp hread
  refine ⟨h, hthis, ?_⟩
  rw [State.cleared, State.record, DeleterType.after]
  by_cases hptr : h.mPtr = none
  · rw [if_neg (not_not.mpr hptr)] at hrun
    refine ⟨?_, Or.inl hptr⟩
    rw [if_pos hptr, if_pos hptr, ← hptr, set_eq_self hthis]
    exact (pure_ok_iff.mp hrun).2.symm
  · rw [if_pos hptr, bind_ok_iff] at hrun
    obtain ⟨_, s₁, hcall, hset⟩ := hrun
    obtain ⟨hquiet, h', hthis', rfl⟩ := callDeleter_ok hcall
    obtain rfl : h = h' := Option.some.inj (hthis.symm.trans hthis')
    obtain ⟨h', hthis', rfl⟩ := setPtr_ok.mp hset
    rw [set_handle_self] at hthis'
    obtain rfl := Option.some.inj hthis'
    rw [if_neg hptr, if_neg hptr, set_set]
    exact ⟨rfl, Or.inr hquiet⟩

theorem moveConstruct_ok (hrun : moveConstruct E this other s = (.ok (), s')) :
    Does E s (.moveConstruct this other) none s' := by
  rw [moveConstruct, bind_ok_iff] at hrun
  obtain ⟨deleter, s₁, hmove, hrun⟩ := hrun
  obtain ⟨k, hother, rfl, rfl⟩ := moveDeleter_ok hmove
  obtain ⟨k', s₂, hread, hrun⟩ := bind_ok_iff.mp hrun
  obtain ⟨hk', rfl⟩ := fields_ok.mp hread
  rw [set_handle_self] at hk'
  obtain rfl := Option.some.inj hk'
  obtain ⟨_, s₃, hnew, hset⟩ := bind_ok_iff.mp hrun
  obtain ⟨hnone, rfl⟩ := newHandle_ok.mp hnew
  have hne : this ≠ other := by
    rintro rfl
    rw [set_handle_self] at hnone
    exact nomatch hnone
  rw [set_handle_of_ne hne] at hnone
  obtain ⟨k', hk', rfl⟩ := setPtr_ok.mp hset
  rw [set_handle_of_ne hne.symm, set_handle_self] at hk'
  obtain rfl := Option.some.inj hk'
  rw [set_comm hne.symm, set_set]
  exact .moveConstruct this other k hnone hother hne

theorem moveAssign_ok (hrun : moveAssign E throws this other s = (.ok (), s')) :
    Does E s (.moveAssign this other) none s'
      ∧ (this = other ∨ s.held this = none ∨ throws = false) := by
  rw [moveAssign] at hrun
  by_cases hne : this = other
  · subst hne
    rw [if_pos rfl, bind_ok_iff] at hrun
    obtain ⟨_, s₁, hread, hret⟩ := hrun
    obtain ⟨-, rfl⟩ := fields_ok.mp hread
    obtain ⟨-, rfl⟩ := pure_ok_iff.mp hret
    exact ⟨.moveAssignSelf this, Or.inl rfl⟩
  · rw [if_neg hne, bind_ok_iff] at hrun
    obtain ⟨deleter, s₁, hmove, hrun⟩ := hrun
    obtain ⟨k, hother, rfl, rfl⟩ := moveDeleter_ok hmove
    obtain ⟨_, s₂, hset, hrun⟩ := bind_ok_iff.mp hrun
    obtain ⟨h, hthis, rfl⟩ := setDeleter_ok.mp hset
    rw [set_handle_of_ne hne] at hthis
    obtain ⟨_, s₃, hdelete, hrun⟩ := bind_ok_iff.mp hrun
    obtain ⟨h', hh', rfl, hquiet⟩ := deleteObject_ok hdelete
    rw [set_handle_self] at hh'
    obtain rfl := Option.some.inj hh'
    rw [State.cleared] at hrun
    -- what is held has not changed when the deleter is called
    have hheld : (s.set other (some ⟨E.moved k.mDeleter, k.mPtr⟩)).held = s.held :=
      held_set_of_ptr hother rfl
    have hheld' : ((s.set other (some ⟨E.moved k.mDeleter, k.mPtr⟩)).set this
        (some ⟨k.mDeleter, h.mPtr⟩)).held = (s.set other _).held :=
      held_set_of_ptr (h := h) (by rwa [set_handle_of_ne hne]) rfl
    rw [record_set hheld', record_set hheld, set_set] at hrun
    obtain ⟨k', s₄, hread, hrun⟩ := bind_ok_iff.mp hrun
    obtain ⟨hk', rfl⟩ := fields_ok.mp hread
    rw [set_handle_of_ne (Ne.symm hne), set_handle_self] at hk'
    obtain rfl := Option.some.inj hk'
    obtain ⟨_, s₅, hset₁, hset₂⟩ := bind_ok_iff.mp hrun
    obtain ⟨h', hh', rfl⟩ := setPtr_ok.mp hset₁
    rw [set_handle_self] at hh'
    obtain rfl := Option.some.inj hh'
    obtain ⟨k', hk', rfl⟩ := setPtr_ok.mp hset₂
    rw [set_handle_of_ne (Ne.symm hne), set_handle_of_ne (Ne.symm hne), set_handle_self] at hk'
    obtain rfl := Option.some.inj hk'
    rw [set_set, set_comm (Ne.symm hne), set_set]
    refine ⟨.moveAssign this other h k hne hthis hother, Or.inr ?_⟩
    rwa [held_of_handle hthis]

theorem release_ok {ptr : Option A} (hrun : release this s = (.ok ptr, s')) :
    Does E s (.release this) ptr s' := by
  rw [release, bind_ok_iff] at hrun
  obtain ⟨h, s₁, hread, hrun⟩ := hrun
  obtain ⟨hthis, rfl⟩ := fields_ok.mp hread
  obtain ⟨_, s₂, hset, hret⟩ := bind_ok_iff.mp hrun
  obtain ⟨h', hthis', rfl⟩ := setPtr_ok.mp hset
  obtain rfl : h = h' := Option.some.inj (hthis.symm.trans hthis')
  obtain ⟨rfl, rfl⟩ := pure_ok_iff.mp hret
  exact .release this h hthis

theorem destruct_ok (hrun : destruct E throws this s = (.ok (), s')) :
    Does E s (.destruct this) none s' := by
  rw [destruct] at hrun
  cases hbody : destructBody E throws this s with
  | mk out s₁ =>
      rw [hbody] at hrun
      cases out with
      | ok _ =>
          obtain rfl : s₁.set this none = s' := congrArg Prod.snd hrun
          rw [destructBody, bind_ok_iff] at hbody
          obtain ⟨h, s₂, hread, hbody⟩ := hbody
          obtain ⟨hthis, rfl⟩ := fields_ok.mp hread
          have hdone : s₁.set this none = (s.cleared E this h).set this none := by
            rw [State.cleared, State.record, set_set]
            by_cases hptr : h.mPtr = none
            · rw [if_neg (not_not.mpr hptr)] at hbody
              rw [if_pos hptr, (pure_ok_iff.mp hbody).2]
            · rw [if_pos hptr] at hbody
              obtain ⟨-, h', hthis', rfl⟩ := callDeleter_ok hbody
              obtain rfl : h = h' := Option.some.inj (hthis.symm.trans hthis')
              rw [if_neg hptr, set_set]
          rw [hdone]
          exact .destruct this h hthis
      | threw _ => exact nomatch (Prod.mk.inj hrun).1
      | undefined => exact nomatch (Prod.mk.inj hrun).1
      | diverged => exact nomatch (Prod.mk.inj hrun).1

/-- **Every operation that returns does what `Does` says.** -/
theorem exec_does {op : Op H A D} {ptr : Option A} (hrun : exec E throws op s = (.ok ptr, s')) :
    Does E s op ptr s' := by
  have hunit : ∀ {p : Prog (State H A D) Unit Unit},
      (do p; pure none : Prog (State H A D) Unit (Option A)) s = (.ok ptr, s') →
        p s = (.ok (), s') ∧ none = ptr := by
    intro p hboth
    obtain ⟨_, s₁, hp, hret⟩ := bind_ok_iff.mp hboth
    obtain ⟨rfl, rfl⟩ := pure_ok_iff.mp hret
    exact ⟨hp, rfl⟩
  cases op with
  | release this => exact release_ok hrun
  | construct this =>
      obtain ⟨hp, rfl⟩ := hunit hrun
      obtain ⟨hnone, rfl⟩ := newHandle_ok.mp hp
      exact .construct this hnone
  | constructFrom this ptr =>
      obtain ⟨hp, rfl⟩ := hunit hrun
      obtain ⟨hnone, rfl⟩ := newHandle_ok.mp hp
      exact .constructFrom this ptr hnone
  | constructWith this ptr deleter =>
      obtain ⟨hp, rfl⟩ := hunit hrun
      obtain ⟨hnone, rfl⟩ := newHandle_ok.mp hp
      exact .constructWith this ptr deleter hnone
  | moveConstruct this other =>
      obtain ⟨hp, rfl⟩ := hunit hrun
      exact moveConstruct_ok hp
  | moveAssign this other =>
      obtain ⟨hp, rfl⟩ := hunit hrun
      exact (moveAssign_ok hp).1
  | assignNull this =>
      obtain ⟨hp, rfl⟩ := hunit hrun
      obtain ⟨h, hthis, rfl, -⟩ := deleteObject_ok hp
      exact .assignNull this h hthis
  | destruct this =>
      obtain ⟨hp, rfl⟩ := hunit hrun
      exact destruct_ok hp

/-- The next state, if the operation returns what the event says. -/
def next [DecidableEq A] (E : DeleterType D A) (s : State H A D) (a : Event H A D) :
    Option (State H A D) :=
  match exec E false a.1 s with
  | (.ok ptr, s') => if ptr = a.2 then some s' else none
  | _ => none

theorem next_step [DecidableEq A] {a : Event H A D} (hnext : next E s a = some s') :
    (handles E).step s a s' := by
  rw [next] at hnext
  show exec E false a.1 s = _
  split at hnext
  · rename_i ptr s₁ hrun
    by_cases hptr : ptr = a.2
    · rw [if_pos hptr] at hnext
      rw [hrun, hptr, Option.some.inj hnext]
    · rw [if_neg hptr] at hnext
      exact nomatch hnext
  · exact nomatch hnext

end OwningPointer
