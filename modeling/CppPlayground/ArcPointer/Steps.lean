import CppPlayground.ArcPointer.Model

/-! # `ArcPointer`: what a step can do, and who uses which handle

    `Moves` lists the steps of a thread, one constructor each, with everything a step
    requires and changes; `step_moves` says there are no others.  `Exclusive` says that a
    handle one thread modifies is used by no other, so that what a thread knows about its
    handles (`Point.Knows`) stays true while the others take their steps. -/

namespace ArcPointer

open Transition

variable {I H A : Type} {s s' : State I H A} {t : I}

section Moves

variable [DecidableEq I] [DecidableEq H]

/-- The steps of thread `t`. -/
inductive Moves (s : State I H A) (t : I) : Choice H A → State I H A → Prop where
  | construct (this : H) (ptr : Option A) (hp : s.point t = .idle)
      (hthis : s.handle this = none) (hfree : s.modifiable this) :
      Moves s t (.construct this ptr)
        { s with
          handle := Function.update s.handle this (some ⟨some s.nextBlock, ptr⟩)
          block := Function.update s.block s.nextBlock (.construct ptr)
          nextBlock := s.nextBlock + 1 }
  | copyConstruct (this other : H) (members : Handle A) (hp : s.point t = .idle)
      (hthis : s.handle this = none) (hfree : s.modifiable this)
      (hother : s.handle other = some members) (hread : s.readable other) :
      Moves s t (.copyConstruct this other) (s.goto t (.addingConstruct this other members))
  | moveConstruct (this other : H) (hp : s.point t = .idle)
      (hthis : s.handle this = none) (hfree : s.modifiable this)
      (hfree' : s.modifiable other) :
      Moves s t (.moveConstruct this other)
        { s with
          handle := Function.update (Function.update s.handle this (s.handle other)) other
            (some .null) }
  | copyAssignSame (this other : H) (hp : s.point t = .idle)
      (hsame : this = other ∨ s.controlBlock other = s.controlBlock this) :
      Moves s t (.copyAssign this other) s
  | copyAssign (this other : H) (hp : s.point t = .idle) (hfree : s.modifiable this)
      (hread : s.readable other) (hne : this ≠ other) :
      Moves s t (.copyAssign this other) (s.goto t (.addingAssign this other))
  | moveAssign (this other : H) (hp : s.point t = .idle) (hfree : s.modifiable this)
      (hfree' : s.modifiable other) :
      Moves s t (.moveAssign this other) (s.goto t (.releasing this (.moveFrom other)))
  | destructNull (this : H) (hp : s.point t = .idle) (hfree : s.modifiable this)
      (hnull : s.controlBlock this = none) :
      Moves s t (.destruct this) { s with handle := Function.update s.handle this none }
  | destruct (this : H) (hp : s.point t = .idle) (hfree : s.modifiable this) :
      Moves s t (.destruct this) (s.goto t (.releasing this .destroy))
  | addConstruct (this other : H) (members : Handle A) (b : Nat)
      (hp : s.point t = .addingConstruct this other members)
      (hb : members.mControlBlock = some b) :
      Moves s t .next
        { (s.goto t .idle).setBlock b (s.block b).incremented with
          handle := Function.update s.handle this (some members) }
  | addAssign (this other : H) (b : Nat) (hp : s.point t = .addingAssign this other)
      (hb : s.controlBlock other = some b) :
      Moves s t .next
        ((s.goto t (.releasing this (.copyFrom other b))).setBlock b (s.block b).incremented)
  | release (this : H) (after : After H) (b : Nat) (hp : s.point t = .releasing this after)
      (hb : s.controlBlock this = some b) (hpos : (s.block b).decremented.mNumShared ≠ 0) :
      Moves s t .next
        ((s.goto t (.finishing b this after)).setBlock b (s.block b).decremented)
  | releaseLast (this : H) (after : After H) (b : Nat)
      (hp : s.point t = .releasing this after) (hb : s.controlBlock this = some b)
      (hzero : (s.block b).decremented.mNumShared = 0) :
      Moves s t .next
        ((s.goto t (.disposing b this after)).setBlock b (s.block b).decremented)
  | crash (hp : (s.point t).atomic = true)
      (hbad : ∀ b, s.target t = some b → (s.block b).deleted ≠ 0) :
      Moves s t .next (s.goto t .crashed)
  | dispose (b : Nat) (this : H) (after : After H) (hp : s.point t = .disposing b this after) :
      Moves s t .next ((s.goto t (.finishing b this after)).setBlock b (s.block b).disposed)
  | finish (b : Nat) (this : H) (after : After H) (hp : s.point t = .finishing b this after) :
      Moves s t .next { s.goto t .idle with handle := finish s.handle this after }

omit [DecidableEq H] in
/-- An atomic operation is done, or hits `nullptr` or a deleted block. -/
theorem onBlock_cases (o : Option Nat) (operation : Nat → State I H A) :
    (∃ b, o = some b ∧ s.onBlock t o operation = operation b)
      ∨ (∀ b, o = some b → (s.block b).deleted ≠ 0)
        ∧ s.onBlock t o operation = s.goto t .crashed := by
  cases o with
  | none => exact Or.inr ⟨nofun, rfl⟩
  | some b =>
      by_cases hlive : (s.block b).deleted = 0
      · exact Or.inl ⟨b, rfl, if_pos hlive⟩
      · refine Or.inr ⟨?_, if_neg hlive⟩
        rintro c ⟨⟩
        exact hlive

/-- A thread in a member. -/
theorem next_moves (hidle : s.point t ≠ .idle) (hcrashed : s.point t ≠ .crashed) :
    Moves s t .next (s.next t) := by
  cases hp : s.point t with
  | idle => exact absurd hp hidle
  | crashed => exact absurd hp hcrashed
  | addingConstruct this other members =>
      simp only [State.next, hp]
      rcases onBlock_cases (s := s) (t := t) members.mControlBlock _ with
        ⟨b, hb, heq⟩ | ⟨hbad, heq⟩ <;> rw [heq]
      · exact .addConstruct this other members b hp hb
      · refine .crash (by rw [hp]; rfl) fun b hb => hbad b ?_
        rwa [State.target, hp] at hb
  | addingAssign this other =>
      simp only [State.next, hp]
      rcases onBlock_cases (s := s) (t := t) (s.controlBlock other) _ with
        ⟨b, hb, heq⟩ | ⟨hbad, heq⟩ <;> rw [heq]
      · exact .addAssign this other b hp hb
      · refine .crash (by rw [hp]; rfl) fun b hb => hbad b ?_
        rwa [State.target, hp] at hb
  | releasing this after =>
      simp only [State.next, hp]
      rcases onBlock_cases (s := s) (t := t) (s.controlBlock this) _ with
        ⟨b, hb, heq⟩ | ⟨hbad, heq⟩ <;> rw [heq]
      · by_cases hzero : (s.block b).decremented.mNumShared = 0
        · rw [if_pos hzero]
          exact .releaseLast this after b hp hb hzero
        · rw [if_neg hzero]
          exact .release this after b hp hb hzero
      · refine .crash (by rw [hp]; rfl) fun b hb => hbad b ?_
        rwa [State.target, hp] at hb
  | disposing b this after =>
      simp only [State.next, hp]
      exact .dispose b this after hp
  | finishing b this after =>
      simp only [State.next, hp]
      exact .finish b this after hp

variable [Fintype I]

/-- An idle thread. -/
theorem begin_moves {ch : Choice H A} (hp : s.point t = .idle) (h : s.begin t ch = some s') :
    Moves s t ch s' := by
  cases ch with
  | construct this ptr =>
      obtain ⟨⟨hthis, hfree⟩, ⟨⟩⟩ := Option.ite_none_right_eq_some.mp h
      exact .construct this ptr hp hthis hfree
  | copyConstruct this other =>
      obtain ⟨⟨hthis, hfree, hread⟩, hsome⟩ := Option.ite_none_right_eq_some.mp h
      obtain ⟨members, hother, rfl⟩ := Option.map_eq_some_iff.mp hsome
      exact .copyConstruct this other members hp hthis hfree hother hread
  | moveConstruct this other =>
      obtain ⟨⟨hthis, hfree, -, hfree'⟩, ⟨⟩⟩ := Option.ite_none_right_eq_some.mp h
      exact .moveConstruct this other hp hthis hfree hfree'
  | copyAssign this other =>
      obtain ⟨⟨-, -, -, hread⟩, hrest⟩ := Option.ite_none_right_eq_some.mp h
      by_cases hself : this = other
      · rw [if_pos hself] at hrest
        obtain rfl := Option.some.inj hrest
        exact .copyAssignSame this other hp (Or.inl hself)
      · rw [if_neg hself] at hrest
        by_cases hshare : s.controlBlock other = s.controlBlock this
        · rw [if_pos hshare] at hrest
          obtain rfl := Option.some.inj hrest
          exact .copyAssignSame this other hp (Or.inr hshare)
        · rw [if_neg hshare] at hrest
          obtain ⟨hfree, ⟨⟩⟩ := Option.ite_none_right_eq_some.mp hrest
          exact .copyAssign this other hp hfree hread hself
  | moveAssign this other =>
      obtain ⟨⟨-, hfree, -, hfree'⟩, ⟨⟩⟩ := Option.ite_none_right_eq_some.mp h
      exact .moveAssign this other hp hfree hfree'
  | destruct this =>
      obtain ⟨⟨-, hfree⟩, hrest⟩ := Option.ite_none_right_eq_some.mp h
      by_cases hnull : s.controlBlock this = none
      · rw [if_pos hnull] at hrest
        obtain rfl := Option.some.inj hrest
        exact .destructNull this hp hfree hnull
      · rw [if_neg hnull] at hrest
        obtain rfl := Option.some.inj hrest
        exact .destruct this hp hfree
  | next => exact nomatch h

/-- There are no other steps. -/
theorem step_moves {ch : Choice H A} (h : step s t ch = some s') : Moves s t ch s' := by
  cases hp : s.point t with
  | idle =>
      simp only [step, hp] at h
      exact begin_moves hp h
  | crashed => simp only [step, hp, reduceCtorEq] at h
  | _ =>
      cases ch with
      | next =>
          have hnext : s.next t = s' := by simpa only [step, hp, Option.some.injEq] using h
          rw [← hnext]
          exact next_moves (by rw [hp]; nofun) (by rw [hp]; nofun)
      | _ => simp only [step, hp, reduceCtorEq] at h

end Moves

/-! ## Who uses which handle -/

section Handles

variable [DecidableEq H]

/-- A handle that one thread modifies is used by no other. -/
def Exclusive (point : I → Point H A) : Prop :=
  ∀ t u h, t ≠ u → (point t).modifies h = true →
    (point u).modifies h = false ∧ (point u).reads h = false

variable [DecidableEq I]

/-- A thread that goes to `p` starts on handles that are free for it. -/
theorem Exclusive.goto (h : Exclusive s.point) {p : Point H A}
    (hmod : ∀ k, p.modifies k = true → (s.point t).modifies k = true ∨ s.modifiable k)
    (hread : ∀ k, p.reads k = true → (s.point t).reads k = true ∨ s.readable k) :
    Exclusive (Function.update s.point t p) := by
  intro u v k huv hu
  by_cases hut : u = t
  · subst hut
    rw [Function.update_self] at hu
    rw [Function.update_of_ne (Ne.symm huv)]
    rcases hmod k hu with hold | hfree
    · exact h u v k huv hold
    · exact hfree v
  · rw [Function.update_of_ne hut] at hu
    by_cases hvt : v = t
    · subst hvt
      rw [Function.update_self]
      -- `u` modifies `k`, so `t` neither used it nor starts on it
      have hold := h u v k huv hu
      constructor
      · refine Bool.eq_false_iff.mpr ?_
        intro hmodv
        rcases hmod k hmodv with hmod' | hfree
        · exact absurd hmod' (Bool.eq_false_iff.mp hold.1)
        · exact absurd hu (Bool.eq_false_iff.mp (hfree u).1)
      · refine Bool.eq_false_iff.mpr ?_
        intro hreadv
        rcases hread k hreadv with hread' | hfree
        · exact absurd hread' (Bool.eq_false_iff.mp hold.2)
        · exact absurd hu (Bool.eq_false_iff.mp (hfree u))
    · rw [Function.update_of_ne hvt]
      exact h u v k huv hu

/-- **Handles are used exclusively**, step by step. -/
theorem exclusive_step {ch : Choice H A} (h : Exclusive s.point) (hmoves : Moves s t ch s') :
    Exclusive s'.point := by
  cases hmoves with
  | construct this ptr hp hthis hfree => exact h
  | moveConstruct this other hp hthis hfree hfree' => exact h
  | copyAssignSame this other hp hsame => exact h
  | destructNull this hp hfree hnull => exact h
  | copyConstruct this other members hp hthis hfree hother hread =>
      refine h.goto ?_ ?_
      · intro k hk
        obtain rfl : k = this := of_decide_eq_true hk
        exact Or.inr hfree
      · -- the source is only read, so other threads may be reading it too
        intro k hk
        obtain rfl : k = other := of_decide_eq_true hk
        exact Or.inr hread
  | copyAssign this other hp hfree hread hne =>
      refine h.goto ?_ ?_
      · intro k hk
        obtain rfl : k = this := of_decide_eq_true hk
        exact Or.inr hfree
      · intro k hk
        obtain rfl : k = other := of_decide_eq_true hk
        exact Or.inr hread
  | moveAssign this other hp hfree hfree' =>
      refine h.goto ?_ (fun k hk => nomatch hk)
      intro k hk
      rcases Bool.or_eq_true_iff.mp hk with hthis | hother
      · obtain rfl : k = this := of_decide_eq_true hthis
        exact Or.inr hfree
      · obtain rfl : k = other := of_decide_eq_true hother
        exact Or.inr hfree'
  | destruct this hp hfree =>
      refine h.goto ?_ (fun k hk => nomatch hk)
      intro k hk
      rcases Bool.or_eq_true_iff.mp hk with hthis | hnone
      · obtain rfl : k = this := of_decide_eq_true hthis
        exact Or.inr hfree
      · exact nomatch hnone
  | addConstruct this other members b hp hb =>
      exact h.goto (fun k hk => nomatch hk) (fun k hk => nomatch hk)
  | addAssign this other b hp hb =>
      refine h.goto (fun k hk => Or.inl ?_) (fun k hk => Or.inl ?_)
      · rw [hp]
        exact (Bool.or_false _).symm.trans hk
      · rw [hp]
        exact hk
  | release this after b hp hb hpos =>
      exact h.goto (fun k hk => Or.inl (by rw [hp]; exact hk))
        (fun k hk => Or.inl (by rw [hp]; exact hk))
  | releaseLast this after b hp hb hzero =>
      exact h.goto (fun k hk => Or.inl (by rw [hp]; exact hk))
        (fun k hk => Or.inl (by rw [hp]; exact hk))
  | crash hp hbad => exact h.goto (fun k hk => nomatch hk) (fun k hk => nomatch hk)
  | dispose b this after hp =>
      exact h.goto (fun k hk => Or.inl (by rw [hp]; exact hk))
        (fun k hk => Or.inl (by rw [hp]; exact hk))
  | finish b this after hp =>
      exact h.goto (fun k hk => nomatch hk) (fun k hk => nomatch hk)

end Handles

/-! ## What a thread knows about its handles -/

section Knows

/-- What a copy assignment knows about its source. -/
def After.Knows (handle : H → Option (Handle A)) (this : H) : After H → Prop
  | .copyFrom other taken =>
      other ≠ this ∧ (handle other).bind Handle.mControlBlock = some taken
  | _ => True

/-- What a thread knows at a point of a member. -/
def Point.Knows (handle : H → Option (Handle A)) : Point H A → Prop
  | .addingConstruct this other members => handle this = none ∧ handle other = some members
  | .addingAssign this other => other ≠ this
  | .releasing this after => after.Knows handle this
  | .disposing b this after | .finishing b this after =>
      (handle this).bind Handle.mControlBlock = some b ∧ after.Knows handle this
  | _ => True

variable [DecidableEq H]

theorem After.Knows.congr {handle handle' : H → Option (Handle A)} {this : H}
    {after : After H} (h : after.Knows handle this)
    (hsame : ∀ k, after.reads k = true → handle' k = handle k) : after.Knows handle' this := by
  cases after with
  | copyFrom other taken =>
      refine ⟨h.1, ?_⟩
      rw [hsame other (decide_eq_true rfl)]
      exact h.2
  | _ => trivial

/-- It stays true as long as the handles it uses stay as they are. -/
theorem Point.Knows.congr {handle handle' : H → Option (Handle A)} {p : Point H A}
    (h : p.Knows handle)
    (hsame : ∀ k, p.modifies k = true ∨ p.reads k = true → handle' k = handle k) :
    p.Knows handle' := by
  -- `this` is modified and the rest is read after `release_ref`
  have hrest : ∀ (this : H) (after : After H),
      (∀ k, (decide (k = this) || after.modifies k) = true ∨ after.reads k = true →
        handle' k = handle k) →
      handle' this = handle this ∧ ∀ k, after.reads k = true → handle' k = handle k :=
    fun this after hs => ⟨hs this (Or.inl (by rw [decide_eq_true rfl]; rfl)),
      fun k hk => hs k (Or.inr hk)⟩
  cases p with
  | addingConstruct this other members =>
      constructor
      · rw [hsame this (Or.inl (decide_eq_true rfl))]
        exact h.1
      · rw [hsame other (Or.inr (decide_eq_true rfl))]
        exact h.2
  | addingAssign this other => exact h
  | releasing this after => exact After.Knows.congr h (hrest this after hsame).2
  | disposing b this after =>
      obtain ⟨hthis, hreads⟩ := hrest this after hsame
      exact ⟨by rw [hthis]; exact h.1, h.2.congr hreads⟩
  | finishing b this after =>
      obtain ⟨hthis, hreads⟩ := hrest this after hsame
      exact ⟨by rw [hthis]; exact h.1, h.2.congr hreads⟩
  | _ => trivial

theorem finish_of_not_modifies {handle : H → Option (Handle A)} {this k : H} {after : After H}
    (hk : (decide (k = this) || after.modifies k) = false) :
    finish handle this after k = handle k := by
  obtain ⟨hthis, hafter⟩ := Bool.or_eq_false_iff.mp hk
  have hne : k ≠ this := of_decide_eq_false hthis
  cases after with
  | copyFrom other taken => exact Function.update_of_ne hne _ _
  | moveFrom other =>
      have hne' : k ≠ other := of_decide_eq_false hafter
      rw [finish, Function.update_of_ne hne', Function.update_of_ne hne]
  | destroy => exact Function.update_of_ne hne _ _

variable [DecidableEq I]

/-- A step changes only handles that its thread modifies. -/
theorem moves_handle {ch : Choice H A} (hmoves : Moves s t ch s') (k : H) :
    s'.handle k = s.handle k ∨ (s.point t).modifies k = true ∨ s.modifiable k := by
  have hupdate : ∀ (this : H) (o : Option (Handle A)) (handle : H → Option (Handle A)),
      Function.update handle this o k = handle k ∨ k = this := by
    intro this o handle
    by_cases hk : k = this
    · exact Or.inr hk
    · exact Or.inl (Function.update_of_ne hk _ _)
  cases hmoves with
  | construct this ptr hp hthis hfree =>
      rcases hupdate this _ s.handle with hsame | rfl
      · exact Or.inl hsame
      · exact Or.inr (Or.inr hfree)
  | moveConstruct this other hp hthis hfree hfree' =>
      rcases hupdate other (some .null) (Function.update s.handle this (s.handle other)) with
        hsame | rfl
      · rcases hupdate this (s.handle other) s.handle with hsame' | rfl
        · exact Or.inl (hsame.trans hsame')
        · exact Or.inr (Or.inr hfree)
      · exact Or.inr (Or.inr hfree')
  | destructNull this hp hfree hnull =>
      rcases hupdate this none s.handle with hsame | rfl
      · exact Or.inl hsame
      · exact Or.inr (Or.inr hfree)
  | addConstruct this other members b hp hb =>
      rcases hupdate this (some members) s.handle with hsame | rfl
      · exact Or.inl hsame
      · exact Or.inr (Or.inl (by rw [hp]; exact decide_eq_true rfl))
  | finish b this after hp =>
      by_cases hk : (decide (k = this) || after.modifies k) = true
      · exact Or.inr (Or.inl (by rw [hp]; exact hk))
      · exact Or.inl (finish_of_not_modifies (Bool.eq_false_iff.mpr hk))
  | _ => exact Or.inl rfl

/-- A step changes only the point of its thread. -/
theorem moves_point {ch : Choice H A} (hmoves : Moves s t ch s') :
    ∃ p, s'.point = Function.update s.point t p := by
  cases hmoves with
  | construct this ptr hp hthis hfree => exact ⟨_, (Function.update_eq_self t s.point).symm⟩
  | moveConstruct this other hp hthis hfree hfree' =>
      exact ⟨_, (Function.update_eq_self t s.point).symm⟩
  | copyAssignSame this other hp hsame => exact ⟨_, (Function.update_eq_self t s.point).symm⟩
  | destructNull this hp hfree hnull => exact ⟨_, (Function.update_eq_self t s.point).symm⟩
  | _ => exact ⟨_, rfl⟩

/-- What the thread that takes the step knows afterwards. -/
theorem moves_knows {ch : Choice H A} (hmoves : Moves s t ch s')
    (h : (s.point t).Knows s.handle) : (s'.point t).Knows s'.handle := by
  have hgoto : ∀ {p : Point H A} {handle : H → Option (Handle A)}, p.Knows handle →
      (Function.update s.point t p t).Knows handle := by
    intro p handle hp
    rwa [Function.update_self]
  cases hmoves with
  | construct this ptr hp hthis hfree =>
      show (s.point t).Knows _
      rw [hp]
      trivial
  | moveConstruct this other hp hthis hfree hfree' =>
      show (s.point t).Knows _
      rw [hp]
      trivial
  | copyAssignSame this other hp hsame => exact h
  | destructNull this hp hfree hnull =>
      show (s.point t).Knows _
      rw [hp]
      trivial
  | copyConstruct this other members hp hthis hfree hother hread =>
      exact hgoto ⟨hthis, hother⟩
  | copyAssign this other hp hfree hread hne => exact hgoto (Ne.symm hne)
  | moveAssign this other hp hfree hfree' => exact hgoto trivial
  | destruct this hp hfree => exact hgoto trivial
  | addConstruct this other members b hp hb => exact hgoto trivial
  | addAssign this other b hp hb =>
      rw [hp] at h
      exact hgoto ⟨h, hb⟩
  | release this after b hp hb hpos =>
      rw [hp] at h
      exact hgoto ⟨hb, h⟩
  | releaseLast this after b hp hb hzero =>
      rw [hp] at h
      exact hgoto ⟨hb, h⟩
  | crash hp hbad => exact hgoto trivial
  | dispose b this after hp =>
      rw [hp] at h
      exact hgoto h
  | finish b this after hp => exact hgoto trivial

/-- A step of one thread leaves the others where they are, and the handles they use as
    they are. -/
theorem moves_others {ch : Choice H A} (hex : Exclusive s.point) (hmoves : Moves s t ch s')
    {u : I} (hu : u ≠ t) : s'.point u = s.point u
      ∧ ∀ k, (s.point u).modifies k = true ∨ (s.point u).reads k = true →
          s'.handle k = s.handle k := by
  obtain ⟨p, hpoint⟩ := moves_point hmoves
  refine ⟨by rw [hpoint, Function.update_of_ne hu], ?_⟩
  intro k huses
  rcases moves_handle hmoves k with hsame | hmod | hfree
  · exact hsame
  · obtain ⟨hnmod, hnread⟩ := hex t u k (Ne.symm hu) hmod
    rw [hnmod, hnread] at huses
    exact absurd huses (by decide)
  · rw [(hfree u).1, (hfree u).2] at huses
    exact absurd huses (by decide)

/-- **Every thread goes on knowing its handles**, whoever takes the step. -/
theorem knows_step {ch : Choice H A} (hex : Exclusive s.point)
    (h : ∀ u, (s.point u).Knows s.handle) (hmoves : Moves s t ch s') (u : I) :
    (s'.point u).Knows s'.handle := by
  by_cases hu : u = t
  · subst hu
    exact moves_knows hmoves (h u)
  · obtain ⟨hpoint, hsame⟩ := moves_others hex hmoves hu
    rw [hpoint]
    exact (h u).congr hsame

end Knows

end ArcPointer
