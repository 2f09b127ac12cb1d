import CppPlayground.ArcPointer.Exact

/-! # `ArcPointer`: null control blocks

    A handle that was moved from has no control block.  Destroying it and moving it on
    are fine, but copy construction, copy assignment and move assignment dereference the
    control blocks of their handles without a test.  `HasBlocks` is what they rely on; a
    run that keeps to it never dereferences `nullptr`, and a member that is started
    without it does. -/

namespace ArcPointer

open Transition

variable {I H A : Type} {s s' : State I H A} {t : I}

section Ready

/-- What a thread is about to dereference is not `nullptr`. -/
def Point.Ready (handle : H → Option (Handle A)) : Point H A → Prop
  | .addingConstruct _ _ members => members.mControlBlock ≠ none
  | .addingAssign this other => (handle other).bind Handle.mControlBlock ≠ none
      ∧ (handle this).bind Handle.mControlBlock ≠ none
  | .releasing this _ => (handle this).bind Handle.mControlBlock ≠ none
  | _ => True

theorem Point.Ready.target (h : (s.point t).Ready s.handle)
    (hatomic : (s.point t).atomic = true) : s.target t ≠ none := by
  rw [State.target]
  cases hp : s.point t with
  | addingConstruct this other members =>
      rw [hp] at h
      exact h
  | addingAssign this other =>
      rw [hp] at h
      exact h.1
  | releasing this after =>
      rw [hp] at h
      exact h
  | _ =>
      rw [hp] at hatomic
      exact absurd hatomic Bool.false_ne_true

variable [DecidableEq H]

/-- It depends on the handles the thread uses only. -/
theorem Point.Ready.congr {handle handle' : H → Option (Handle A)} {p : Point H A}
    (h : p.Ready handle)
    (hsame : ∀ k, p.modifies k = true ∨ p.reads k = true → handle' k = handle k) :
    p.Ready handle' := by
  cases p with
  | addingConstruct this other members => exact h
  | addingAssign this other =>
      rw [Point.Ready, hsame other (Or.inr (decide_eq_true rfl)),
        hsame this (Or.inl (decide_eq_true rfl))]
      exact h
  | releasing this after =>
      rw [Point.Ready, hsame this (Or.inl (Bool.or_eq_true_iff.mpr (Or.inl (decide_eq_true rfl))))]
      exact h
  | _ => trivial

end Ready

section Runs

variable [DecidableEq I] [Fintype I] [DecidableEq H]

/-- What a member relies on when it starts: a copy construction on the block of its
    source, a copy assignment between different blocks on both, a move assignment on the
    block of its target. -/
def HasBlocks (s : State I H A) (a : I × Choice H A) : Bool :=
  match s.point a.1, a.2 with
  | .idle, .copyConstruct _ other => (s.controlBlock other).isSome
  | .idle, .copyAssign this other => this = other || s.controlBlock other = s.controlBlock this
      || ((s.controlBlock other).isSome && (s.controlBlock this).isSome)
  | .idle, .moveAssign this _ => (s.controlBlock this).isSome
  | _, _ => true

/-- A copy assignment does nothing, or gets to work on different blocks. -/
theorem begin_copyAssign {this other : H} (h : s.begin t (.copyAssign this other) = some s') :
    s' = s ∨ (this ≠ other ∧ s.controlBlock other ≠ s.controlBlock this
      ∧ s' = s.goto t (.addingAssign this other)) := by
  obtain ⟨-, hrest⟩ := Option.ite_none_right_eq_some.mp h
  by_cases hself : this = other
  · rw [if_pos hself] at hrest
    exact Or.inl (Option.some.inj hrest).symm
  · rw [if_neg hself] at hrest
    by_cases hshare : s.controlBlock other = s.controlBlock this
    · rw [if_pos hshare] at hrest
      exact Or.inl (Option.some.inj hrest).symm
    · rw [if_neg hshare] at hrest
      obtain ⟨-, hgoto⟩ := Option.ite_none_right_eq_some.mp hrest
      exact Or.inr ⟨hself, hshare, (Option.some.inj hgoto).symm⟩

/-- A destruction ends at once where there is no control block. -/
theorem begin_destruct {this : H} (h : s.begin t (.destruct this) = some s') :
    s'.point = s.point ∨ (s.controlBlock this ≠ none
      ∧ s' = s.goto t (.releasing this .destroy)) := by
  obtain ⟨-, hrest⟩ := Option.ite_none_right_eq_some.mp h
  by_cases hnull : s.controlBlock this = none
  · rw [if_pos hnull] at hrest
    exact Or.inl (by rw [← Option.some.inj hrest])
  · rw [if_neg hnull] at hrest
    exact Or.inr ⟨hnull, (Option.some.inj hrest).symm⟩

theorem begin_of_step {ch : Choice H A} (hp : s.point t = .idle)
    (h : step s t ch = some s') : s.begin t ch = some s' := by
  simpa only [step, hp] using h

/-- The thread that takes a step is ready for the next one. -/
theorem step_ready {ch : Choice H A} (hstep : step s t ch = some s')
    (hblocks : HasBlocks s (t, ch) = true) (h : (s.point t).Ready s.handle) :
    (s'.point t).Ready s'.handle := by
  have hgoto : ∀ {p : Point H A} {handle : H → Option (Handle A)}, p.Ready handle →
      (Function.update s.point t p t).Ready handle := by
    intro p handle hp
    rwa [Function.update_self]
  rw [HasBlocks] at hblocks
  cases step_moves hstep with
  | construct this ptr hp hthis hfree =>
      show (s.point t).Ready _
      rw [hp]
      trivial
  | moveConstruct this other hp hthis hfree hfree' =>
      show (s.point t).Ready _
      rw [hp]
      trivial
  | copyAssignSame this other hp hsame => exact h
  | destructNull this hp hfree hnull =>
      show (s.point t).Ready _
      rw [hp]
      trivial
  | copyConstruct this other members hp hthis hfree hother hread =>
      simp only [hp, State.controlBlock, hother] at hblocks
      exact hgoto (Option.isSome_iff_ne_none.mp hblocks)
  | copyAssign this other hp hfree hread hne =>
      rcases begin_copyAssign (begin_of_step hp hstep) with hsame | ⟨-, hdiff, -⟩
      · rw [hsame]
        exact h
      · simp only [hp, hne, hdiff, decide_false, Bool.false_or, Bool.and_eq_true] at hblocks
        exact hgoto ⟨Option.isSome_iff_ne_none.mp hblocks.1,
          Option.isSome_iff_ne_none.mp hblocks.2⟩
  | moveAssign this other hp hfree hfree' =>
      simp only [hp] at hblocks
      exact hgoto (Option.isSome_iff_ne_none.mp hblocks)
  | destruct this hp hfree =>
      rcases begin_destruct (begin_of_step hp hstep) with hsame | ⟨hblock, -⟩
      · rw [hsame, hp]
        trivial
      · exact hgoto hblock
  | addConstruct this other members b hp hb => exact hgoto trivial
  | addAssign this other b hp hb =>
      rw [hp] at h
      exact hgoto h.2
  | release this after b hp hb hpos => exact hgoto trivial
  | releaseLast this after b hp hb hzero => exact hgoto trivial
  | crash hp hbad => exact hgoto trivial
  | dispose b this after hp => exact hgoto trivial
  | finish b this after hp => exact hgoto trivial

/-- **Every thread stays ready**, whoever takes the step. -/
theorem ready_step {ch : Choice H A} (hex : Exclusive s.point)
    (h : ∀ u, (s.point u).Ready s.handle) (hblocks : HasBlocks s (t, ch) = true)
    (hstep : step s t ch = some s') (u : I) : (s'.point u).Ready s'.handle := by
  by_cases hu : u = t
  · subst hu
    exact step_ready hstep hblocks (h u)
  · obtain ⟨hpoint, hsame⟩ := moves_others hex (step_moves hstep) hu
    rw [hpoint]
    exact (h u).congr hsame

/-- What holds after every run whose members find the blocks they rely on. -/
theorem run_ready {as : List (I × Choice H A)}
    (h : Run ((arcs I H A).restrict fun s a => HasBlocks s a = true) as s) :
    Exclusive s.point ∧ ∀ u, (s.point u).Ready s.handle := by
  refine Run.invariant (S := (arcs I H A).restrict fun s a => HasBlocks s a = true)
    (I := fun _ s => Exclusive s.point ∧ ∀ u, (s.point u).Ready s.handle) ?_ ?_ h
  · rintro s ⟨blank, rfl⟩
    exact ⟨fun _ _ _ _ hmod => (nomatch hmod), fun _ => trivial⟩
  · rintro as s a s' - ⟨hex, hready⟩ ⟨hstep, hblocks⟩
    exact ⟨exclusive_step hex (step_moves hstep), ready_step hex hready hblocks hstep⟩

/-- **No null control block is dereferenced, where the members find their blocks.**  In
    every run, of any threads, that starts copies and assignments only as `HasBlocks`
    says, no `add_ref` or `release_ref` that a thread has come to is on `nullptr`.
    Constructions, moves and destructions are free in such a run, on handles that were
    moved from too. -/
theorem runs_dereference_no_null {as : List (I × Choice H A)}
    (h : Run ((arcs I H A).restrict fun s a => HasBlocks s a = true) as s) :
    ∀ t, (s.point t).atomic = true → s.target t ≠ none :=
  fun t => ((run_ready h).2 t).target

end Runs

/-- A handle is moved to another and destroyed, its storage is used again for a copy. -/
def moveThenCopy : List (Unit × Choice Bool Nat) :=
  [((), .construct false (some 7)), ((), .moveConstruct true false), ((), .destruct false),
    ((), .copyConstruct false true)]

theorem moveThenCopy_dereferences_no_null : ∃ s,
    Run ((arcs Unit Bool Nat).restrict fun s a => HasBlocks s a = true) moveThenCopy s
      ∧ (s.point ()).atomic = true ∧ s.target () ≠ none := by
  obtain ⟨s, hfollow, hatomic⟩ : ∃ s, follow
      (fun s a => if HasBlocks s a = true then step s a.1 a.2 else none)
      (start (.construct none) : State Unit Bool Nat) moveThenCopy = some s
        ∧ (s.point ()).atomic = true := ⟨_, rfl, rfl⟩
  have hrun : Run ((arcs Unit Bool Nat).restrict fun s a => HasBlocks s a = true)
      moveThenCopy s := by
    refine run_of_follow (S := (arcs Unit Bool Nat).restrict fun s a => HasBlocks s a = true)
      ?_ ⟨_, rfl⟩ hfollow
    intro s a s' hnext
    obtain ⟨hblocks, hstep⟩ := Option.ite_none_right_eq_some.mp hnext
    exact ⟨hstep, hblocks⟩
  exact ⟨s, hrun, hatomic, runs_dereference_no_null hrun () hatomic⟩

/-- A handle is moved to another and then copied. -/
def copyMovedFrom : List (Unit × Choice Nat Nat) :=
  [((), .construct 0 (some 7)), ((), .moveConstruct 1 0), ((), .copyConstruct 2 0)]

/-- **A copy of a handle that was moved from dereferences `nullptr`.** -/
theorem copyMovedFrom_dereferences_null :
    ¬ ∀ (as : List (Unit × Choice Nat Nat)) (s : State Unit Nat Nat),
      Run (arcs Unit Nat Nat) as s → ∀ t, (s.point t).atomic = true → s.target t ≠ none := by
  intro hall
  obtain ⟨s, hfollow, hatomic, hnull⟩ : ∃ s, follow (fun s a => step s a.1 a.2)
      (start (.construct none) : State Unit Nat Nat) copyMovedFrom = some s
        ∧ (s.point ()).atomic = true ∧ s.target () = none := ⟨_, rfl, rfl, rfl⟩
  have hrun : Run (arcs Unit Nat Nat) copyMovedFrom s :=
    run_of_follow (S := arcs Unit Nat Nat) (fun _ _ _ hnext => hnext) ⟨_, rfl⟩ hfollow
  exact hall _ s hrun () hatomic hnull

/-! ## Without the blocks -/

section Converse

variable [DecidableEq I] [Fintype I] [DecidableEq H]

omit [DecidableEq I] [Fintype I] in
/-- A thread in a member relies on nothing new. -/
theorem hasBlocks_next (s : State I H A) (t : I) : HasBlocks s (t, .next) = true := by
  rw [HasBlocks]
  cases s.point t <;> rfl

omit [DecidableEq I] [Fintype I] [DecidableEq H] in
/-- A thread that starts a member dereferences nothing in this step. -/
theorem noNullDeref_of_idle (hp : s.point t = .idle) (ch : Choice H A) :
    NoNullDeref s (t, ch) := by
  intro hatomic
  rw [hp] at hatomic
  exact nomatch hatomic

/-- A run that keeps to `HasBlocks` does not dereference `nullptr`. -/
theorem run_noNullDeref {as : List (I × Choice H A)}
    (h : Run ((arcs I H A).restrict fun s a => HasBlocks s a = true) as s) :
    Run ((arcs I H A).restrict NoNullDeref) as s :=
  h.restrict_mono fun _ _ _ hrun _ => ((run_ready hrun).2 _).target

variable [Fintype H]

/-- A copy assignment that has started with a null block: `add_ref` dereferences the null
    block of `other`, or else `release_ref`, which comes next, that of `this`. -/
theorem copyAssign_null {this other : H} (hinv : Inv (s.goto t (.addingAssign this other)))
    (hnull : s.controlBlock other = none ∨ s.controlBlock this = none) :
    ∃ s'', (s'' = s.goto t (.addingAssign this other)
        ∨ step (s.goto t (.addingAssign this other)) t .next = some s'')
      ∧ (s''.point t).atomic = true ∧ s''.target t = none := by
  have hat : (s.goto t (.addingAssign this other)).point t = .addingAssign this other :=
    Function.update_self _ _ _
  by_cases hother : s.controlBlock other = none
  · refine ⟨_, Or.inl rfl, by rw [hat]; rfl, ?_⟩
    rw [State.target, hat]
    exact hother
  · -- `add_ref` still works
    obtain ⟨b, hb⟩ := Option.ne_none_iff_exists'.mp hother
    have htarget : (s.goto t (.addingAssign this other)).target t = some b := by
      rw [State.target, hat]
      exact hb
    have hlive := hinv.books.deleted_eq_zero (hinv.target_live htarget)
    have hafter : (s.goto t (.addingAssign this other)).next t
        = (((s.goto t (.addingAssign this other)).goto t
          (.releasing this (.copyFrom other b))).setBlock b (s.block b).incremented) := by
      simp only [State.next, hat]
      show State.onBlock _ t (s.controlBlock other) _ = _
      rw [hb]
      exact if_pos hlive
    have hat' : ((s.goto t (.addingAssign this other)).next t).point t
        = .releasing this (.copyFrom other b) := by
      rw [hafter]
      exact Function.update_self _ _ _
    refine ⟨(s.goto t (.addingAssign this other)).next t,
      Or.inr (by simp only [step, hat]), by rw [hat']; rfl, ?_⟩
    rw [State.target, hat', hafter]
    exact hnull.resolve_left hother

/-- **Without its blocks a member dereferences `nullptr`**, with its first atomic
    operation or with the one after it. -/
theorem null_of_not_hasBlocks {as : List (I × Choice H A)}
    (h : Run ((arcs I H A).restrict fun s a => HasBlocks s a = true) as s) {ch : Choice H A}
    (hstep : step s t ch = some s') (hblocks : HasBlocks s (t, ch) = false) :
    ∃ s'', (s'' = s' ∨ step s' t .next = some s'') ∧ (s''.point t).atomic = true
      ∧ s''.target t = none := by
  cases step_moves hstep with
  | copyConstruct this other members hp hthis hfree hother hread =>
      simp only [HasBlocks, hp, State.controlBlock, hother, Option.isSome_eq_false_iff,
        Option.isNone_iff_eq_none] at hblocks
      refine ⟨_, Or.inl rfl, ?_, ?_⟩
      · simp only [State.goto, Function.update_self]
        rfl
      · simp only [State.target, State.goto, Function.update_self]
        exact hblocks
  | copyAssign this other hp hfree hread hne =>
      simp only [HasBlocks, hp, Bool.or_eq_false_iff, Bool.and_eq_false_iff,
        Option.isSome_eq_false_iff, Option.isNone_iff_eq_none] at hblocks
      have hinv := inv_step (run_inv (run_noNullDeref h)) (noNullDeref_of_idle hp _) hstep
      exact copyAssign_null hinv hblocks.2
  | moveAssign this other hp hfree hfree' =>
      simp only [HasBlocks, hp, Option.isSome_eq_false_iff, Option.isNone_iff_eq_none] at hblocks
      refine ⟨_, Or.inl rfl, ?_, ?_⟩
      · simp only [State.goto, Function.update_self]
        rfl
      · simp only [State.target, State.goto, Function.update_self]
        exact hblocks
  | construct this ptr hp hthis hfree =>
      simp only [HasBlocks, hp, reduceCtorEq] at hblocks
  | moveConstruct this other hp hthis hfree hfree' =>
      simp only [HasBlocks, hp, reduceCtorEq] at hblocks
  | copyAssignSame this other hp hsame =>
      rcases hsame with hsame | hsame <;>
        simp only [HasBlocks, hp, hsame, decide_true, Bool.true_or, Bool.or_true,
          reduceCtorEq] at hblocks
  | destructNull this hp hfree hnull =>
      simp only [HasBlocks, hp, reduceCtorEq] at hblocks
  | destruct this hp hfree =>
      simp only [HasBlocks, hp, reduceCtorEq] at hblocks
  | _ =>
      rw [hasBlocks_next] at hblocks
      exact absurd hblocks.symm Bool.false_ne_true

end Converse

end ArcPointer
