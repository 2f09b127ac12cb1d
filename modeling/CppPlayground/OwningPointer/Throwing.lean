import CppPlayground.OwningPointer.Ownership

/-! # `OwningPointer`: deleters that throw

    Both assignments call the deleter before they clear `m_ptr`, so a deleter that throws
    leaves the pointer in the handle, and the handle passes it again when it is destroyed.
    A destructor whose deleter throws does no such harm: its handle is gone. -/

namespace OwningPointer

open Program Transition Ownership

variable {H A D : Type}

/-- Whether deleters throw, the operation and how it ended. -/
abbrev ThrowingEvent (H A D : Type) : Type := Bool × Op H A D × Outcome Unit (Option A)

/-- The event of a run in which no deleter throws. -/
def ThrowingEvent.event (a : ThrowingEvent H A D) : Event H A D :=
  (a.2.1, match a.2.2 with
    | .ok ptr => ptr
    | _ => none)

/-- A call that returned or threw. -/
def Ends (out : Outcome Unit (Option A)) : Prop := out.Meets (fun _ => True) fun _ => True

/-- No deleter that an assignment calls throws. -/
def AssignsQuietly (s : State H A D) (throws : Bool) : Op H A D → Prop
  | .moveAssign this other => this = other ∨ s.held this = none ∨ throws = false
  | .assignNull this => s.held this = none ∨ throws = false
  | _ => True

section Systems

variable [DecidableEq H]

/-- All runs without undefined behaviour, with exceptions of the deleters. -/
def throwingHandles (E : DeleterType D A) : System (State H A D) (ThrowingEvent H A D) where
  init s := s = ⟨fun _ => none, []⟩
  step s a s' := exec E a.1 a.2.1 s = (a.2.2, s') ∧ Ends a.2.2

/-- Whichever handle is destroyed next, no pointer has then been passed to deleters twice. -/
def DestroysOnce (E : DeleterType D A) (s : State H A D) : Prop :=
  ∀ throws this out s', (throwingHandles E).step s (throws, .destruct this, out) s' →
    s'.freed.Nodup

/-- An assignment whose deleter throws leaves every pointer that was adopted, and neither
    passed to a deleter nor released, with one handle. -/
def ThrowingAssignsKeep (E : DeleterType D A) (tr : List (ThrowingEvent H A D))
    (s : State H A D) : Prop :=
  ∀ throws op s', ¬ AssignsQuietly s throws op → exec E throws op s = (.threw (), s') →
    ∀ p ∈ adopted E (tr.map ThrowingEvent.event), p ∉ s'.freed →
      p ∉ released (tr.map ThrowingEvent.event) → ∃ h, s'.held h = some p
        ∧ ∀ k, s'.held k = some p → k = h

end Systems

variable [DecidableEq H] {E : DeleterType D A} {s s' : State H A D} {this other : H}
  {tr : List (ThrowingEvent H A D)} {op : Op H A D} {throws : Bool} {u : Unit}

/-! ## What a throwing operation does -/

omit [DecidableEq H] in
theorem neverThrows_fields (this : H) :
    NeverThrows (fields this : Prog (State H A D) Unit (Handle D A)) := neverThrows_access _

theorem neverThrows_setPtr (this : H) (ptr : Option A) :
    NeverThrows (setPtr this ptr : Prog (State H A D) Unit Unit) :=
  (neverThrows_fields this).bind fun _ => neverThrows_modify _

theorem neverThrows_setDeleter (this : H) (deleter : D) :
    NeverThrows (setDeleter this deleter : Prog (State H A D) Unit Unit) :=
  (neverThrows_fields this).bind fun _ => neverThrows_modify _

theorem neverThrows_newHandle (this : H) (deleter : D) (ptr : Option A) :
    NeverThrows (newHandle this deleter ptr : Prog (State H A D) Unit Unit) :=
  neverThrows_change _

theorem neverThrows_moveDeleter (E : DeleterType D A) (other : H) :
    NeverThrows (moveDeleter E other) :=
  (neverThrows_fields other).bind fun _ =>
    (neverThrows_setDeleter _ _).bind fun _ => neverThrows_pure _

/-- The state after a call of the deleter that throws: `m_ptr` is as it was. -/
def State.failed (E : DeleterType D A) (s : State H A D) (this : H) (h : Handle D A) :
    State H A D :=
  (s.record this h.mDeleter h.mPtr).set this (some ⟨E.called h.mDeleter h.mPtr, h.mPtr⟩)

/-- The operations that throw, each with a pointer to delete. -/
inductive Throws (E : DeleterType D A) (s : State H A D) : Op H A D → State H A D → Prop where
  | moveAssign (this other : H) (h k : Handle D A) : this ≠ other → h.mPtr ≠ none →
      s.handle this = some h → s.handle other = some k →
      Throws E s (.moveAssign this other)
        ((s.set other (some ⟨E.moved k.mDeleter, k.mPtr⟩)).failed E this
          ⟨k.mDeleter, h.mPtr⟩)
  | assignNull (this : H) (h : Handle D A) : h.mPtr ≠ none → s.handle this = some h →
      Throws E s (.assignNull this) (s.failed E this h)
  | destruct (this : H) (h : Handle D A) : h.mPtr ≠ none → s.handle this = some h →
      Throws E s (.destruct this) ((s.cleared E this h).set this none)

theorem callDeleter_threw (h : callDeleter E throws this s = (.threw u, s')) :
    throws = true ∧ ∃ k, s.handle this = some k ∧ s' = State.set
      { s with calls := s.calls ++ [⟨this, k.mDeleter, k.mPtr, s.held⟩] } this
      (some ⟨E.called k.mDeleter k.mPtr, k.mPtr⟩) := by
  obtain ⟨k, s₁, hread, h⟩ := (neverThrows_fields this).threw_second h
  obtain ⟨hthis, rfl⟩ := fields_ok.mp hread
  obtain ⟨_, s₂, hrecord, h⟩ := (neverThrows_modify _).threw_second h
  obtain rfl := congrArg Prod.snd hrecord
  obtain ⟨_, s₃, hset, hthrow⟩ := (neverThrows_setDeleter _ _).threw_second h
  obtain ⟨k', hthis', rfl⟩ := setDeleter_ok.mp hset
  obtain rfl : k = k' := Option.some.inj (hthis.symm.trans hthis')
  cases throws with
  | true => exact ⟨rfl, k, hthis, (congrArg Prod.snd hthrow).symm⟩
  | false => exact absurd (congrArg Prod.fst hthrow) (by simp [attempt])

theorem deleteObject_threw (hrun : deleteObject E throws this s = (.threw u, s')) :
    throws = true
      ∧ ∃ h, s.handle this = some h ∧ h.mPtr ≠ none ∧ s' = s.failed E this h := by
  obtain ⟨h, s₁, hread, hrun⟩ := (neverThrows_fields this).threw_second hrun
  obtain ⟨hthis, rfl⟩ := fields_ok.mp hread
  by_cases hptr : h.mPtr = none
  · rw [if_neg (not_not.mpr hptr)] at hrun
    exact absurd (congrArg Prod.fst hrun) (neverThrows_pure () s u)
  · rw [if_pos hptr] at hrun
    obtain ⟨hthrows, h', hthis', rfl⟩ := callDeleter_threw
      (threw_first (fun _ => neverThrows_setPtr _ _) hrun)
    obtain rfl : h = h' := Option.some.inj (hthis.symm.trans hthis')
    refine ⟨hthrows, h, hthis, hptr, ?_⟩
    rw [State.failed, State.record, if_neg hptr]

theorem moveAssign_threw (hrun : moveAssign E throws this other s = (.threw u, s')) :
    throws = true ∧ Throws E s (.moveAssign this other) s' := by
  rw [moveAssign] at hrun
  by_cases hne : this = other
  · rw [if_pos hne] at hrun
    exact absurd (congrArg Prod.fst hrun)
      (((neverThrows_fields this).bind fun _ => neverThrows_pure ()) s u)
  · rw [if_neg hne] at hrun
    obtain ⟨deleter, s₁, hmove, hrun⟩ := (neverThrows_moveDeleter E other).threw_second hrun
    obtain ⟨k, hother, rfl, rfl⟩ := moveDeleter_ok hmove
    obtain ⟨_, s₂, hset, hrun⟩ := (neverThrows_setDeleter _ _).threw_second hrun
    obtain ⟨h, hthis, rfl⟩ := setDeleter_ok.mp hset
    rw [set_handle_of_ne hne] at hthis
    -- after the call of the deleter nothing throws
    obtain ⟨hthrows, h', hh', hptr, rfl⟩ := deleteObject_threw (threw_first (fun _ =>
      (neverThrows_fields other).bind fun _ => (neverThrows_setPtr _ _).bind fun _ =>
        neverThrows_setPtr _ _) hrun)
    rw [set_handle_self] at hh'
    obtain rfl := Option.some.inj hh'
    have hthis' : (s.set other (some ⟨E.moved k.mDeleter, k.mPtr⟩)).handle this = some h := by
      rwa [set_handle_of_ne hne]
    have hheld := held_set_of_ptr (k := ⟨k.mDeleter, h.mPtr⟩) hthis' rfl
    rw [State.failed, record_set hheld, set_set]
    exact ⟨hthrows, .moveAssign this other h k hne hptr hthis hother⟩

theorem destruct_threw (hrun : destruct E throws this s = (.threw u, s')) :
    throws = true ∧ Throws E s (.destruct this) s' := by
  rw [destruct] at hrun
  cases hbody : destructBody E throws this s with
  | mk out s₁ =>
      rw [hbody] at hrun
      cases out with
      | threw v =>
          obtain rfl : s₁.set this none = s' := congrArg Prod.snd hrun
          obtain ⟨h, s₂, hread, hbody⟩ := (neverThrows_fields this).threw_second hbody
          obtain ⟨hthis, rfl⟩ := fields_ok.mp hread
          by_cases hptr : h.mPtr = none
          · rw [if_neg (not_not.mpr hptr)] at hbody
            exact absurd (congrArg Prod.fst hbody) (neverThrows_pure () s v)
          · rw [if_pos hptr] at hbody
            obtain ⟨hthrows, h', hthis', rfl⟩ := callDeleter_threw hbody
            obtain rfl : h = h' := Option.some.inj (hthis.symm.trans hthis')
            have hdone := Throws.destruct (E := E) this h hptr hthis
            rw [State.cleared, State.record, if_neg hptr, set_set] at hdone
            rw [set_set]
            exact ⟨hthrows, hdone⟩
      | ok _ => cases (Prod.mk.inj hrun).1
      | undefined => cases (Prod.mk.inj hrun).1
      | diverged => cases (Prod.mk.inj hrun).1

/-- **Every operation that throws does what `Throws` says.** -/
theorem exec_throws (hrun : exec E throws op s = (.threw u, s')) :
    throws = true ∧ Throws E s op s' := by
  have hunit : ∀ {p : Prog (State H A D) Unit Unit},
      (do p; pure none : Prog (State H A D) Unit (Option A)) s = (.threw u, s') →
        p s = (.threw u, s') :=
    fun hboth => threw_first (fun _ => neverThrows_pure _) hboth
  cases op with
  | release this =>
      have hquiet : NeverThrows (release this : Prog (State H A D) Unit (Option A)) :=
        (neverThrows_fields this).bind fun _ => (neverThrows_setPtr _ _).bind fun _ =>
          neverThrows_pure _
      exact absurd (congrArg Prod.fst hrun) (hquiet s u)
  | construct this =>
      exact absurd (congrArg Prod.fst (hunit hrun)) (neverThrows_newHandle _ _ _ s u)
  | constructFrom this ptr =>
      exact absurd (congrArg Prod.fst (hunit hrun)) (neverThrows_newHandle _ _ _ s u)
  | constructWith this ptr deleter =>
      exact absurd (congrArg Prod.fst (hunit hrun)) (neverThrows_newHandle _ _ _ s u)
  | moveConstruct this other =>
      have hquiet : NeverThrows (moveConstruct E this other) :=
        (neverThrows_moveDeleter E other).bind fun _ => (neverThrows_fields other).bind fun _ =>
          (neverThrows_newHandle _ _ _).bind fun _ => neverThrows_setPtr _ _
      exact absurd (congrArg Prod.fst (hunit hrun)) (hquiet s u)
  | moveAssign this other => exact moveAssign_threw (hunit hrun)
  | assignNull this =>
      obtain ⟨hthrows, h, hthis, hptr, rfl⟩ := deleteObject_threw (hunit hrun)
      exact ⟨hthrows, .assignNull this h hptr hthis⟩
  | destruct this => exact destruct_threw (hunit hrun)

/-! ## One operation -/

theorem held_failed {h k : Handle D A} (hthis : s.handle this = some h)
    (hptr : k.mPtr = h.mPtr) : (s.failed E this k).held = s.held := by
  have hthis' : (s.record this k.mDeleter k.mPtr).handle this = some h := by
    rwa [record_handle]
  have hset := held_set_of_ptr (k := ⟨E.called k.mDeleter k.mPtr, k.mPtr⟩) hthis' hptr
  rw [State.failed, hset, record_held]

theorem freed_failed (s : State H A D) (this : H) (h : Handle D A) :
    (s.failed E this h).freed = s.freed ++ h.mPtr.toList := by
  rw [State.failed, freed_set, freed_record]

/-- An assignment that throws has passed a pointer that is still held, and nothing that is
    held has changed. -/
theorem Throws.assigns (hthrows : Throws E s op s') (hassigns : ¬ AssignsQuietly s throws op) :
    s'.held = s.held ∧ ∃ this p, s.held this = some p ∧ s'.freed = s.freed ++ [p] := by
  cases hthrows with
  | moveAssign this other h k hne hptr hthis hother =>
      obtain ⟨p, hp⟩ := Option.ne_none_iff_exists'.mp hptr
      have hthis' : (s.set other (some ⟨E.moved k.mDeleter, k.mPtr⟩)).handle this = some h := by
        rwa [set_handle_of_ne hne]
      refine ⟨?_, this, p, by rw [held_of_handle hthis, hp], ?_⟩
      · have hfailed := held_failed (E := E) (k := ⟨k.mDeleter, h.mPtr⟩) hthis' rfl
        exact hfailed.trans (held_set_of_ptr hother rfl)
      · rw [freed_failed, freed_set, hp, Option.toList_some]
  | assignNull this h hptr hthis =>
      obtain ⟨p, hp⟩ := Option.ne_none_iff_exists'.mp hptr
      refine ⟨held_failed hthis rfl, this, p, by rw [held_of_handle hthis, hp], ?_⟩
      rw [freed_failed, hp, Option.toList_some]
  | destruct this h hptr hthis => exact absurd trivial hassigns

/-- An assignment that returns has called no deleter that throws. -/
theorem assignsQuietly_of_ok {ptr : Option A} (hrun : exec E throws op s = (.ok ptr, s')) :
    AssignsQuietly s throws op := by
  cases op with
  | moveAssign this other =>
      obtain ⟨_, s₁, hassign, -⟩ := bind_ok_iff.mp hrun
      exact (moveAssign_ok hassign).2
  | assignNull this =>
      obtain ⟨_, s₁, hassign, -⟩ := bind_ok_iff.mp hrun
      obtain ⟨h, hthis, -, hquiet⟩ := deleteObject_ok hassign
      rwa [AssignsQuietly, held_of_handle hthis]
  | _ => trivial

theorem callDeleter_quiet {h : Handle D A} (hthis : s.handle this = some h) :
    callDeleter E false this s = (.ok (), State.set
      { s with calls := s.calls ++ [⟨this, h.mDeleter, h.mPtr, s.held⟩] } this
      (some ⟨E.called h.mDeleter h.mPtr, h.mPtr⟩)) := by
  refine (bind_of_ok (fields_ok.mpr ⟨hthis, rfl⟩)).trans ?_
  exact (bind_of_ok rfl).trans (bind_of_ok (setDeleter_ok.mpr ⟨h, hthis, rfl⟩))

/-- A handle that is destroyed passes its pointer. -/
theorem exec_destruct {h : Handle D A} (hthis : s.handle this = some h) :
    exec E false (.destruct this) s = (.ok none, (s.cleared E this h).set this none) := by
  have hread : fields this s = (.ok h, s) := fields_ok.mpr ⟨hthis, rfl⟩
  have hdestruct : destruct E false this s = (.ok (), (s.cleared E this h).set this none) := by
    rw [State.cleared, State.record, set_set]
    by_cases hptr : h.mPtr = none
    · have hbody : destructBody E false this s = (.ok (), s) := by
        refine (bind_of_ok hread).trans ?_
        rw [if_neg (not_not.mpr hptr)]
        rfl
      rw [destruct, hbody, if_pos hptr]
    · have hbody : destructBody E false this s = callDeleter E false this s := by
        refine (bind_of_ok hread).trans ?_
        rw [if_pos hptr]
      rw [destruct, hbody, callDeleter_quiet hthis, if_neg hptr]
      exact congrArg (Prod.mk _) (set_set _ _ _ _)
  exact bind_of_ok hdestruct

theorem ends_cases {out : Outcome Unit (Option A)} (hends : Ends out) :
    (∃ ptr, out = .ok ptr) ∨ out = .threw () := by
  cases out with
  | ok ptr => exact Or.inl ⟨ptr, rfl⟩
  | threw u => exact Or.inr rfl
  | undefined => exact hends.elim
  | diverged => exact hends.elim

/-- **One operation keeps the law of the ledger**, unless it is an assignment whose deleter
    throws. -/
theorem step_sound {a : ThrowingEvent H A D}
    (hsound : (ledger E (tr.map ThrowingEvent.event) s).Sound)
    (hstep : (throwingHandles E).step s a s') (hquiet : AssignsQuietly s a.1 a.2.1) :
    (ledger E ((tr ++ [a]).map ThrowingEvent.event) s').Sound := by
  obtain ⟨throws, op, out⟩ := a
  obtain ⟨hrun, hends⟩ := hstep
  rw [List.map_append]
  rcases ends_cases hends with ⟨ptr, rfl⟩ | rfl
  · exact does_sound hsound (exec_does hrun)
  · obtain ⟨rfl, hthrows⟩ := exec_throws hrun
    cases hthrows with
    | moveAssign this other h k hne hptr hthis hother =>
        rcases hquiet with heq | hnone | hfalse
        · exact absurd heq hne
        · rw [held_of_handle hthis] at hnone
          exact absurd hnone hptr
        · exact absurd hfalse.symm Bool.false_ne_true
    | assignNull this h hptr hthis =>
        rcases hquiet with hnone | hfalse
        · rw [held_of_handle hthis] at hnone
          exact absurd hnone hptr
        · exact absurd hfalse.symm Bool.false_ne_true
    | destruct this h hptr hthis => exact does_sound hsound (.destruct this h hthis)

/-! ## Whole runs -/

/-- After an assignment whose deleter throws, the handle still has the pointer that was
    passed, and its destruction passes it again. -/
theorem Throws.destroys_twice (hthrows : Throws E s op s')
    (hassigns : ¬ AssignsQuietly s throws op) : ¬ DestroysOnce E s' := by
  intro honce
  obtain ⟨hheld, this, p, hp, hfreed⟩ := hthrows.assigns hassigns
  rw [← hheld] at hp
  obtain ⟨h, hthis, hptr⟩ := Option.bind_eq_some_iff.mp hp
  have hnodup := honce false this _ _ ⟨exec_destruct hthis, trivial⟩
  rw [freed_set, freed_cleared hthis, hp, hfreed, Option.toList_some] at hnodup
  have htwice := (List.nodup_append.mp hnodup).2.2 p (by simp) p (by simp)
  exact htwice rfl

theorem run_throwing_sound (h : Run ((throwingHandles E).restrict fun s a =>
      AssignsQuietly s a.1 a.2.1) tr s) :
    (ledger E (tr.map ThrowingEvent.event) s).Sound := by
  refine Run.invariant (S := (throwingHandles E).restrict _)
    (I := fun tr s => (ledger E (tr.map ThrowingEvent.event) s).Sound) ?_ ?_ h
  · rintro s rfl
    exact sound_empty
  · rintro tr s a s' - hsound ⟨hstep, hquiet⟩
    exact step_sound hsound hstep hquiet

/-- Destroying a handle adopts nothing. -/
theorem destroysOnce_of_sound (hsound : (ledger E (tr.map ThrowingEvent.event) s).Sound)
    (hdistinct : (adopted E (tr.map ThrowingEvent.event)).Nodup) : DestroysOnce E s := by
  intro throws this out s' hstep
  have hsame : adopted E ((tr ++ [(throws, Op.destruct this, out)]).map ThrowingEvent.event)
      = adopted E (tr.map ThrowingEvent.event) := by
    rw [List.map_append, List.map_singleton, adopted_concat]
    exact List.append_nil _
  exact (step_sound hsound hstep trivial).freed_nodup (by rwa [← hsame] at hdistinct)

theorem throwingAssignsKeep (hsound : (ledger E (tr.map ThrowingEvent.event) s).Sound)
    (hdistinct : (adopted E (tr.map ThrowingEvent.event)).Nodup) :
    ThrowingAssignsKeep E tr s := by
  intro throws op s' hassigns hrun p hp hfreed hreleased
  obtain ⟨-, hthrows⟩ := exec_throws hrun
  obtain ⟨hheld, this, q, hq, hpassed⟩ := hthrows.assigns hassigns
  rw [hpassed, List.mem_append, not_or] at hfreed
  rw [hheld]
  obtain ⟨k, hk⟩ := hsound.exists_holder hp hfreed.1 hreleased
  exact ⟨k, hk, fun l hl => hsound.unique hdistinct hl hk⟩

/-- Every operation that ends can be the next one. -/
theorem run_throwing {C : State H A D → ThrowingEvent H A D → Prop}
    (h : Run ((throwingHandles E).restrict C) tr s) (throws : Bool) (op : Op H A D)
    (hends : Ends (exec E throws op s).1) (hC : C s (throws, op, (exec E throws op s).1)) :
    Run ((throwingHandles E).restrict C) (tr ++ [(throws, op, (exec E throws op s).1)])
      (exec E throws op s).2 :=
  .snoc h ⟨⟨rfl, hends⟩, hC⟩

/-- The deleter of a destructor throws, after a move assignment. -/
def destructorThrows : List (ThrowingEvent Bool Nat Unit) :=
  [(false, .constructFrom true (some 1), .ok none),
    (false, .constructFrom false (some 2), .ok none),
    (false, .moveAssign true false, .ok none), (true, .destruct true, .threw ())]

end OwningPointer
