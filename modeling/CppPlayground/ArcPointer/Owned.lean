import CppPlayground.ArcPointer.Exact

/-! # `ArcPointer`: what `get` returns

    `m_ptr` and `m_control_block` are two fields, and every member has to keep them
    together.  `Backed` says that a handle with a pointer refers to a block that manages
    this pointer.  A move assignment resets the control block of its source but not the
    pointer, so it keeps `Backed` exactly where the source has no pointer
    (`DropsNothing`). -/

namespace ArcPointer

open Transition Threads

variable {I H A : Type} {s s' : State I H A} {t : I}

/-- `get()` -/
def State.get (s : State I H A) (h : H) : Option A := (s.handle h).bind Handle.mPtr

/-- The members of a handle belong together: a pointer is the one its block manages. -/
def Handle.Backed (block : Nat → Block A) (nextBlock : Nat) (o : Handle A) : Prop :=
  ∀ p, o.mPtr = some p → ∃ b, o.mControlBlock = some b ∧ b < nextBlock
    ∧ (block b).mPtr = some p

/-- Every handle has its pointer from its block. -/
def Backed (s : State I H A) : Prop :=
  ∀ k o, s.handle k = some o → o.Backed s.block s.nextBlock

theorem Handle.backed_null (block : Nat → Block A) (nextBlock : Nat) :
    (Handle.null : Handle A).Backed block nextBlock := fun _ hp => nomatch hp

theorem Handle.backed_withoutBlock {o : Handle A} (hnone : o.mPtr = none)
    (block : Nat → Block A) (nextBlock : Nat) : o.withoutBlock.Backed block nextBlock := by
  intro p hp
  rw [show o.withoutBlock.mPtr = o.mPtr from rfl, hnone] at hp
  exact nomatch hp

/-- The pointer of a handle with a block is the one the block manages. -/
def Handle.Agrees (block : Nat → Block A) (nextBlock : Nat) (o : Handle A) : Prop :=
  ∀ b, o.mControlBlock = some b → b < nextBlock ∧ (block b).mPtr = o.mPtr

/-- Every handle with a block has the pointer of its block. -/
def Agree (s : State I H A) : Prop :=
  ∀ k o, s.handle k = some o → o.Agrees s.block s.nextBlock

/-- A property of a handle that depends on what the allocated blocks manage, and that a
    handle without members has, and that of a new block. -/
structure OfPointers (P : (Nat → Block A) → Nat → Handle A → Prop) : Prop where
  mono : ∀ {o : Handle A} {block block' : Nat → Block A} {nextBlock nextBlock' : Nat},
    P block nextBlock o → nextBlock ≤ nextBlock' →
    (∀ b, b < nextBlock → (block' b).mPtr = (block b).mPtr) → P block' nextBlock' o
  null : ∀ block nextBlock, P block nextBlock .null
  fresh : ∀ block nextBlock, P block (nextBlock + 1) ⟨some nextBlock, (block nextBlock).mPtr⟩

theorem ofPointers_backed : OfPointers (Handle.Backed (A := A)) where
  mono h hle hptr p hp := by
    obtain ⟨b, hb, hlt, hmanaged⟩ := h p hp
    exact ⟨b, hb, Nat.lt_of_lt_of_le hlt hle, (hptr b hlt).trans hmanaged⟩
  null := Handle.backed_null
  fresh _ nextBlock _ hp := ⟨nextBlock, rfl, Nat.lt_succ_self _, hp⟩

theorem ofPointers_agrees : OfPointers (Handle.Agrees (A := A)) where
  mono h hle hptr b hb := by
    obtain ⟨hlt, hmanaged⟩ := h b hb
    exact ⟨Nat.lt_of_lt_of_le hlt hle, (hptr b hlt).trans hmanaged⟩
  null _ _ _ hb := nomatch hb
  fresh _ nextBlock b hb := by
    obtain rfl : nextBlock = b := Option.some.inj hb
    exact ⟨Nat.lt_succ_self _, rfl⟩

section Moving

/-- The source of a move assignment has no pointer to lose. -/
def After.DropsNothing (handle : H → Option (Handle A)) : After H → Prop
  | .moveFrom other => (handle other).bind Handle.mPtr = none
  | _ => True

/-- The move assignment that a thread is in has no pointer to lose. -/
def Point.DropsNothing (handle : H → Option (Handle A)) : Point H A → Prop
  | .releasing _ after | .disposing _ _ after | .finishing _ _ after =>
      after.DropsNothing handle
  | _ => True

variable [DecidableEq H]

theorem After.DropsNothing.congr {handle handle' : H → Option (Handle A)} {after : After H}
    (h : after.DropsNothing handle)
    (hsame : ∀ k, after.modifies k = true → handle' k = handle k) :
    after.DropsNothing handle' := by
  cases after with
  | moveFrom other =>
      rw [After.DropsNothing, hsame other (decide_eq_true rfl)]
      exact h
  | _ => trivial

/-- It depends on the handles the thread uses only. -/
theorem Point.DropsNothing.congr {handle handle' : H → Option (Handle A)} {p : Point H A}
    (h : p.DropsNothing handle)
    (hsame : ∀ k, p.modifies k = true ∨ p.reads k = true → handle' k = handle k) :
    p.DropsNothing handle' := by
  cases p with
  | releasing this after =>
      exact After.DropsNothing.congr h fun k hk =>
        hsame k (Or.inl (Bool.or_eq_true_iff.mpr (Or.inr hk)))
  | disposing b this after =>
      exact After.DropsNothing.congr h fun k hk =>
        hsame k (Or.inl (Bool.or_eq_true_iff.mpr (Or.inr hk)))
  | finishing b this after =>
      exact After.DropsNothing.congr h fun k hk =>
        hsame k (Or.inl (Bool.or_eq_true_iff.mpr (Or.inr hk)))
  | _ => trivial

/-- The condition on a step: a move assignment that starts has a source without a
    pointer. -/
def MovesNothing (s : State I H A) (a : I × Choice H A) : Bool :=
  match s.point a.1, a.2 with
  | .idle, .moveAssign _ other => (s.get other).isNone
  | _, _ => true

variable [DecidableEq I]

/-- The thread that takes a step goes on losing nothing. -/
theorem moves_dropsNothing {ch : Choice H A} (hmoves : Moves s t ch s')
    (hnothing : MovesNothing s (t, ch) = true) (h : (s.point t).DropsNothing s.handle) :
    (s'.point t).DropsNothing s'.handle := by
  have hgoto : ∀ {p : Point H A} {handle : H → Option (Handle A)}, p.DropsNothing handle →
      (Function.update s.point t p t).DropsNothing handle := by
    intro p handle hp
    rwa [Function.update_self]
  cases hmoves with
  | construct this ptr hp hthis hfree =>
      show (s.point t).DropsNothing _
      rw [hp]
      trivial
  | moveConstruct this other hp hthis hfree hfree' =>
      show (s.point t).DropsNothing _
      rw [hp]
      trivial
  | copyAssignSame this other hp hsame => exact h
  | destructNull this hp hfree hnull =>
      show (s.point t).DropsNothing _
      rw [hp]
      trivial
  | copyConstruct this other members hp hthis hfree hother hread => exact hgoto trivial
  | copyAssign this other hp hfree hread hne => exact hgoto trivial
  | moveAssign this other hp hfree hfree' =>
      simp only [MovesNothing, hp] at hnothing
      exact hgoto (Option.isNone_iff_eq_none.mp hnothing)
  | destruct this hp hfree => exact hgoto trivial
  | addConstruct this other members b hp hb => exact hgoto trivial
  | addAssign this other b hp hb => exact hgoto trivial
  | release this after b hp hb hpos =>
      rw [hp] at h
      exact hgoto h
  | releaseLast this after b hp hb hzero =>
      rw [hp] at h
      exact hgoto h
  | crash hp hbad => exact hgoto trivial
  | dispose b this after hp =>
      rw [hp] at h
      exact hgoto h
  | finish b this after hp => exact hgoto trivial

theorem dropsNothing_step {ch : Choice H A} (hex : Exclusive s.point)
    (h : ∀ u, (s.point u).DropsNothing s.handle) (hnothing : MovesNothing s (t, ch) = true)
    (hmoves : Moves s t ch s') (u : I) : (s'.point u).DropsNothing s'.handle := by
  by_cases hu : u = t
  · subst hu
    exact moves_dropsNothing hmoves hnothing (h u)
  · obtain ⟨hpoint, hsame⟩ := moves_others hex hmoves hu
    rw [hpoint]
    exact (h u).congr hsame

/-! ## Pointers and blocks stay together -/

section Pointers

variable {P : (Nat → Block A) → Nat → Handle A → Prop}

omit [DecidableEq I] in
/-- Replacing one handle. -/
theorem handles_update {handle : H → Option (Handle A)} {Q : Handle A → Prop}
    (h : ∀ k o, handle k = some o → Q o) {this : H} {new : Option (Handle A)}
    (hnew : ∀ o, new = some o → Q o) :
    ∀ k o, Function.update handle this new k = some o → Q o := by
  intro k o hk
  by_cases hthis : k = this
  · rw [hthis, Function.update_self] at hk
    exact hnew o hk
  · rw [Function.update_of_ne hthis] at hk
    exact h k o hk

omit [DecidableEq I] in
/-- What an operation does to its handles after `release_ref`. -/
theorem handles_finish {handle : H → Option (Handle A)} {Q : Handle A → Prop}
    (h : ∀ k o, handle k = some o → Q o) {this : H} {after : After H}
    (hmoved : ∀ other o, after = .moveFrom other → handle other = some o → Q o.withoutBlock) :
    ∀ k o, finish handle this after k = some o → Q o := by
  cases after with
  | copyFrom other taken => exact handles_update h (h other)
  | moveFrom other =>
      refine handles_update (handles_update h (h other)) ?_
      intro o ho
      obtain ⟨o', ho', rfl⟩ := Option.map_eq_some_iff.mp ho
      exact hmoved other o' rfl ho'
  | destroy => exact handles_update h fun o ho => nomatch ho

omit [DecidableEq H] [DecidableEq I] in
/-- Replacing a block by one that manages the same pointer. -/
theorem OfPointers.setBlock (hP : OfPointers P)
    (h : ∀ k o, s.handle k = some o → P s.block s.nextBlock o) {b : Nat} {new : Block A}
    (hnew : new.mPtr = (s.block b).mPtr) : ∀ k o, s.handle k = some o →
      P (Function.update s.block b new) s.nextBlock o := by
  intro k o hk
  refine hP.mono (h k o hk) (Nat.le_refl _) ?_
  intro c _
  by_cases hc : c = b
  · rw [hc, Function.update_self, hnew]
  · rw [Function.update_of_ne hc]

/-- Every step of a thread keeps such a property, if the source of a move assignment has it
    afterwards. -/
theorem OfPointers.step (hP : OfPointers P)
    (h : ∀ k o, s.handle k = some o → P s.block s.nextBlock o) {ch : Choice H A}
    (hknows : (s.point t).Knows s.handle)
    (hmoved : ∀ b this other o, s.point t = .finishing b this (.moveFrom other) →
      s.handle other = some o → P s.block s.nextBlock o.withoutBlock)
    (hmoves : Moves s t ch s') : ∀ k o, s'.handle k = some o → P s'.block s'.nextBlock o := by
  cases hmoves with
  | construct this ptr hp hthis hfree =>
      have hold : ∀ k o, s.handle k = some o →
          P (Function.update s.block s.nextBlock (.construct ptr)) (s.nextBlock + 1) o := by
        intro k o hk
        exact hP.mono (h k o hk) (Nat.le_succ _) fun b hb =>
          congrArg Block.mPtr (Function.update_of_ne (Nat.ne_of_lt hb) _ _)
      refine handles_update hold ?_
      rintro o ⟨⟩
      have hfresh := hP.fresh (Function.update s.block s.nextBlock (.construct ptr)) s.nextBlock
      rwa [Function.update_self] at hfresh
  | moveConstruct this other hp hthis hfree hfree' =>
      refine handles_update (handles_update h (h other)) ?_
      rintro o ⟨⟩
      exact hP.null _ _
  | copyAssignSame this other hp hsame => exact h
  | destructNull this hp hfree hnull => exact handles_update h fun o ho => nomatch ho
  | copyConstruct this other members hp hthis hfree hother hread => exact h
  | copyAssign this other hp hfree hread hne => exact h
  | moveAssign this other hp hfree hfree' => exact h
  | destruct this hp hfree => exact h
  | addConstruct this other members b hp hb =>
      rw [hp] at hknows
      have hset : ∀ k o, s.handle k = some o →
          P (Function.update s.block b (s.block b).incremented) s.nextBlock o :=
        hP.setBlock h rfl
      refine handles_update hset ?_
      rintro o ⟨⟩
      exact hset other members hknows.2
  | addAssign this other b hp hb => exact hP.setBlock h rfl
  | release this after b hp hb hpos => exact hP.setBlock h rfl
  | releaseLast this after b hp hb hzero => exact hP.setBlock h rfl
  | crash hp hbad => exact h
  | dispose b this after hp => exact hP.setBlock h rfl
  | finish b this after hp =>
      refine handles_finish h ?_
      rintro other o rfl ho
      exact hmoved b this other o hp ho

end Pointers

/-- **Pointers stay with their blocks**, step by step. -/
theorem backed_step {ch : Choice H A} (h : Backed s) (hknows : (s.point t).Knows s.handle)
    (hdrops : (s.point t).DropsNothing s.handle) (hmoves : Moves s t ch s') : Backed s' := by
  refine ofPointers_backed.step h hknows ?_ hmoves
  intro b this other o hp ho
  refine Handle.backed_withoutBlock ?_ s.block s.nextBlock
  rw [hp, Point.DropsNothing, After.DropsNothing, ho] at hdrops
  exact hdrops

/-- Blocks stay with their pointers. -/
theorem agree_step {ch : Choice H A} (h : Agree s) (hknows : (s.point t).Knows s.handle)
    (hmoves : Moves s t ch s') : Agree s' :=
  ofPointers_agrees.step h hknows (fun _ _ _ _ _ _ _ hb => nomatch hb) hmoves

end Moving

/-! ## Whole runs -/

section Runs

variable [DecidableEq I] [Fintype I] [DecidableEq H] [Fintype H]

/-- The steps of a run that dereferences no `nullptr` and whose move assignments have
    sources without a pointer. -/
def Careful (s : State I H A) (a : I × Choice H A) : Prop :=
  NoNullDeref s a ∧ MovesNothing s a = true

instance (s : State I H A) (a : I × Choice H A) : Decidable (Careful s a) :=
  inferInstanceAs (Decidable (NoNullDeref s a ∧ MovesNothing s a = true))

theorem run_backed {as : List (I × Choice H A)}
    (h : Run ((arcs I H A).restrict Careful) as s) :
    Backed s ∧ ∀ u, (s.point u).DropsNothing s.handle := by
  refine Run.invariant (S := (arcs I H A).restrict Careful)
    (I := fun _ s => Backed s ∧ ∀ u, (s.point u).DropsNothing s.handle) ?_ ?_ h
  · rintro s ⟨blank, rfl⟩
    exact ⟨fun _ _ hk => (nomatch hk), fun _ => trivial⟩
  · rintro as s a s' hrun ⟨hbacked, hdrops⟩ ⟨hstep, -, hnothing⟩
    have hinv := run_inv (hrun.restrict_mono fun _ _ _ _ hcareful => hcareful.1)
    have hmoves := step_moves hstep
    exact ⟨backed_step hbacked (hinv.knows a.1) (hdrops a.1) hmoves,
      dropsNothing_step hinv.exclusive hdrops hnothing hmoves⟩

/-- `get` never returns a pointer that the handle does not own, as far as no thread is
    modifying the handle. -/
def OwnsPointers (s : State I H A) : Prop :=
  ∀ k, (∀ u, (s.point u).modifies k = false) → ∀ p, s.get k = some p →
    ∃ b, s.controlBlock k = some b ∧ (s.block b).deleted = 0 ∧ (s.block b).mPtr = some p

omit [Fintype H] in
/-- What a move assignment leaves: the source without its control block, but with its
    pointer; the target with both, unless it is the source. -/
theorem finish_moveFrom {b : Nat} {this other : H}
    (hp : s.point t = .finishing b this (.moveFrom other)) (hstep : step s t .next = some s') :
    s'.get other = s.get other ∧ s'.controlBlock other = none
      ∧ s'.get this = s.get other ∧ (this ≠ other → s'.handle this = s.handle other) := by
  have hnext : s'.handle = finish s.handle this (.moveFrom other) := by
    simp only [step, hp, Option.some.injEq] at hstep
    rw [← hstep]
    simp only [State.next, hp]
  have hother : s'.handle other = (s.handle other).map .withoutBlock := by
    rw [hnext]
    exact Function.update_self _ _ _
  have hget : s'.get other = s.get other := by
    rw [State.get, State.get, hother]
    cases s.handle other <;> rfl
  refine ⟨hget, ?_, ?_, ?_⟩
  · rw [State.controlBlock, hother]
    cases s.handle other <;> rfl
  · by_cases hself : this = other
    · rw [hself, hget]
    · rw [State.get, hnext, finish, Function.update_of_ne hself, Function.update_self]
      rfl
  · intro hne
    rw [hnext, finish, Function.update_of_ne hne, Function.update_self]

end Runs

/-- A move assignment from a handle without a pointer. -/
def moveAssignEmpty : List (Unit × Choice Bool Nat) :=
  [((), .construct false (some 7)), ((), .construct true none), ((), .moveAssign false true),
    ((), .next), ((), .next)]

/-- A move assignment from a handle with a pointer. -/
def moveAssignFull : List (Unit × Choice Bool Nat) :=
  [((), .construct false (some 7)), ((), .construct true none), ((), .moveAssign true false),
    ((), .next), ((), .next), ((), .next)]

end ArcPointer
