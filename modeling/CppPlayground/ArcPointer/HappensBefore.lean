import CppPlayground.ArcPointer.Accesses

/-! # `ArcPointer`: nothing happens to an object after its destruction

    A handle `Holds` a block as long as its reference has not been given back.  Whoever got
    the handle knows of the creation of the block; and whatever was done with the block or
    its object was done by way of a handle, which still holds the block or has given its
    reference back since, by an operation on the count (`Ordered`).  The thread that brings
    the count to zero has synchronised with all of these operations, and nothing holds the
    block any more.  A use is one of the object of a block if its handle has a control
    block; `movedFromUse` shows what may happen by way of a handle that has none. -/

namespace ArcPointer

open Transition Events

variable {I H A : Type} {s s' : State I H A} {t : I} {e : Event I H A}

/-- The handle refers to the block, and its reference has not been given back. -/
def State.Holds (s : State I H A) (k : H) (b : Nat) : Prop :=
  s.controlBlock k = some b ∧ ∀ u, ¬ s.spends b u k

/-- What an event does to handles and blocks. -/
structure Effect (s : State I H A) (e : Event I H A) (s' : State I H A) : Prop where
  source : ∀ k b, s'.controlBlock k = some b → s.controlBlock k = some b
    ∨ e.modifies k = true
      ∧ (e.deed = some (.create, b) ∨ ∃ j, s.controlBlock j = some b ∧ e.accesses j = true)
  keeps : ∀ k b, s.Holds k b → s'.Holds k b
    ∨ e.modifies k = true
      ∧ (e.deed = some (.count, b) ∨ ∃ j, s'.Holds j b ∧ e.modifies j = true)
  creates : ∀ b, e.deed = some (.create, b) →
    b = s.nextBlock ∧ ∃ k, s'.Holds k b ∧ e.modifies k = true
  reaches : ∀ d b, e.deed = some (d, b) → d ≠ .create →
    b < s.nextBlock ∧ (s.block b).deleted = 0
      ∧ ∃ k, s.controlBlock k = some b ∧ e.accesses k = true
  counts : ∀ b, e.deed = some (.count, b) → 0 < (s.block b).mNumShared
  uses : ∀ b, e.deed = some (.use, b) → ∃ k, s'.Holds k b ∧ e.accesses k = true
  disposes : ∀ b, e.deed = some (.dispose, b) →
    (s'.block b).deleted ≠ 0 ∧ ∃ this after, s.point e.thread = .disposing b this after
  disposing : ∀ u b this after, s'.point u = .disposing b this after →
    s.point u = .disposing b this after ∨ (e.thread = u ∧ e.deed = some (.count, b))
  deleted : ∀ b, b < s.nextBlock → (s.block b).deleted ≠ 0 → (s'.block b).deleted ≠ 0
  nextBlock : s.nextBlock ≤ s'.nextBlock
    ∧ ∀ b, e.deed = some (.create, b) → b < s'.nextBlock
  manages : ∀ b, b < s.nextBlock → (s'.block b).mPtr = (s.block b).mPtr
  pointer : ∀ d b, e.deed = some (d, b) → d ≠ .count → e.pointer = (s'.block b).mPtr

/-! ## What members do -/

section Effects

/-- Going to a point that gives nothing back leaves a handle its reference. -/
theorem not_spends_update [DecidableEq I] {p : Point H A} {b : Nat} {k : H}
    (hpoint : s'.point = Function.update s.point t p)
    (hp : ∀ after, p ≠ .disposing b k after ∧ p ≠ .finishing b k after)
    (h : ∀ u, ¬ s.spends b u k) (u : I) : ¬ s'.spends b u k := by
  rintro ⟨after, hu⟩
  rw [hpoint] at hu
  by_cases hut : u = t
  · rw [hut, Function.update_self] at hu
    rcases hu with hu | hu
    · exact (hp after).1 hu
    · exact (hp after).2 hu
  · rw [Function.update_of_ne hut] at hu
    exact h u ⟨after, hu⟩

/-- A handle that stays as it is. -/
theorem State.Holds.keep [DecidableEq I] {p : Point H A} {k : H} {b : Nat} (h : s.Holds k b)
    (hhandle : s'.handle k = s.handle k) (hpoint : s'.point = Function.update s.point t p)
    (hp : ∀ after, p ≠ .disposing b k after ∧ p ≠ .finishing b k after) : s'.Holds k b := by
  refine ⟨?_, not_spends_update hpoint hp h.2⟩
  rw [State.controlBlock, hhandle]
  exact h.1

variable [DecidableEq H]

/-- Nobody has given back the reference of a handle that nobody is modifying. -/
theorem not_spends_of_readable {k : H} (h : s.readable k) (b : Nat) (u : I) :
    ¬ s.spends b u k := by
  intro hu
  have hmod := spends_modifies hu
  rw [h u] at hmod
  cases hmod

variable [Fintype I] [Fintype H]

/-- A handle that refers to a block, refers to one that is allocated. -/
theorem Inv.allocated (h : Inv s) {k : H} {b : Nat} (hk : s.controlBlock k = some b) :
    b < s.nextBlock := by
  by_contra hge
  have hnone := (h.books.fresh b (Nat.le_of_not_lt hge)).1
  have hrefers := Threads.number_eq_zero_iff.mp hnone k
  rw [refersTo_eq_true.mpr hk] at hrefers
  exact nomatch hrefers

omit [DecidableEq H] [Fintype I] [Fintype H] in
/-- The deeds of members. -/
theorem deed_cases {ch : Choice H A} {d : Deed} {b : Nat} (h : s.deed t ch = some (d, b)) :
    (∃ this ptr, ch = .construct this ptr ∧ d = .create ∧ b = s.nextBlock)
      ∨ (ch = .next ∧ d = .dispose ∧ ∃ this after, s.point t = .disposing b this after)
      ∨ (ch = .next ∧ d = .count ∧ s.target t = some b) := by
  cases ch with
  | construct this ptr =>
      obtain ⟨rfl, rfl⟩ := Prod.mk.inj (Option.some.inj h)
      exact Or.inl ⟨this, ptr, rfl, rfl, rfl⟩
  | next =>
      refine Or.inr ?_
      by_cases hdisposing : ∃ c this after, s.point t = .disposing c this after
      · obtain ⟨c, this, after, hp⟩ := hdisposing
        simp only [State.deed, hp] at h
        obtain ⟨rfl, rfl⟩ := Prod.mk.inj (Option.some.inj h)
        exact Or.inl ⟨rfl, rfl, this, after, hp⟩
      · have hcount : s.deed t .next = (s.target t).map fun b => (.count, b) := by
          rw [State.deed]
          split
          · rename_i c this after hp
            exact absurd ⟨c, this, after, hp⟩ hdisposing
          · rfl
        rw [hcount] at h
        obtain ⟨c, htarget, heq⟩ := Option.map_eq_some_iff.mp h
        obtain ⟨rfl, rfl⟩ := Prod.mk.inj heq
        exact Or.inr ⟨rfl, rfl, htarget⟩
  | _ => cases h

/-- The handle by which a member reaches a block. -/
theorem target_handle (hinv : Inv s) {b : Nat} (h : s.target t = some b) :
    ∃ k, s.controlBlock k = some b
      ∧ ((s.point t).modifies k = true ∨ (s.point t).reads k = true) := by
  have hknows := hinv.knows t
  rw [State.target] at h
  cases hp : s.point t with
  | addingConstruct this other members =>
      rw [hp] at h hknows
      refine ⟨other, ?_, Or.inr (decide_eq_true rfl)⟩
      rw [State.controlBlock, hknows.2]
      exact h
  | addingAssign this other =>
      rw [hp] at h
      exact ⟨other, h, Or.inr (decide_eq_true rfl)⟩
  | releasing this after =>
      rw [hp] at h
      exact ⟨this, h, Or.inl (Bool.or_eq_true_iff.mpr (Or.inl (decide_eq_true rfl)))⟩
  | _ =>
      rw [hp] at h
      cases h

omit [Fintype I] [Fintype H] in
theorem member_accesses {ch : Choice H A} {k : H}
    (h : (s.point t).modifies k = true ∨ (s.point t).reads k = true) :
    (s.member t ch).accesses k = true := by
  rcases h with h | h
  · exact Bool.or_eq_true_iff.mpr (Or.inl (Bool.or_eq_true_iff.mpr (Or.inl h)))
  · exact Bool.or_eq_true_iff.mpr (Or.inr (Bool.or_eq_true_iff.mpr (Or.inl h)))

omit [Fintype I] [Fintype H] in
theorem member_modifies {ch : Choice H A} {k : H}
    (h : (s.point t).modifies k = true ∨ ch.modifies k = true) :
    (s.member t ch).modifies k = true := Bool.or_eq_true_iff.mpr h

/-- A member reaches only blocks that are not deleted, by a handle. -/
theorem deed_reaches (hinv : Inv s) {ch : Choice H A} {d : Deed} {b : Nat}
    (h : s.deed t ch = some (d, b)) (hd : d ≠ .create) :
    b < s.nextBlock ∧ (s.block b).deleted = 0
      ∧ ∃ k, s.controlBlock k = some b ∧ (s.member t ch).accesses k = true := by
  rcases deed_cases h with ⟨-, -, -, rfl, -⟩ | ⟨-, -, this, after, hp⟩ | ⟨-, -, htarget⟩
  · exact absurd rfl hd
  · obtain ⟨hlt, -, hlive, -⟩ := hinv.last hp
    have hknows := hinv.knows t
    rw [hp] at hknows
    refine ⟨hlt, hlive, this, hknows.1, member_accesses (Or.inl ?_)⟩
    rw [hp]
    exact Bool.or_eq_true_iff.mpr (Or.inl (decide_eq_true rfl))
  · have hlive := hinv.target_live htarget
    obtain ⟨k, hk, huses⟩ := target_handle hinv htarget
    exact ⟨hlive.1, hinv.books.deleted_eq_zero hlive, k, hk, member_accesses huses⟩

omit [Fintype I] [Fintype H] in
/-- After a `release_ref`, a handle gets its block from the other one. -/
theorem finish_source {this k : H} {after : After H} {b : Nat}
    (hk : (finish s.handle this after k).bind Handle.mControlBlock = some b) :
    s.controlBlock k = some b ∨ (decide (k = this) || after.modifies k) = true
      ∧ ∃ j, s.controlBlock j = some b ∧ (after.modifies j = true ∨ after.reads j = true) := by
  by_cases hmod : (decide (k = this) || after.modifies k) = true
  · refine Or.inr ⟨hmod, ?_⟩
    cases after with
    | copyFrom other taken =>
        obtain rfl : k = this :=
          of_decide_eq_true ((Bool.or_eq_true_iff.mp hmod).resolve_right Bool.false_ne_true)
        rw [finish, Function.update_self] at hk
        exact ⟨other, hk, Or.inr (decide_eq_true rfl)⟩
    | moveFrom other =>
        by_cases hko : k = other
        · rw [hko, finish, Function.update_self] at hk
          cases ho : s.handle other <;> rw [ho] at hk <;> cases hk
        · have hkt : k = this := of_decide_eq_true ((Bool.or_eq_true_iff.mp hmod).resolve_right
            fun h => hko (of_decide_eq_true h))
          rw [hkt, finish, Function.update_of_ne (hkt ▸ hko), Function.update_self] at hk
          exact ⟨other, hk, Or.inl (decide_eq_true rfl)⟩
    | destroy =>
        obtain rfl : k = this :=
          of_decide_eq_true ((Bool.or_eq_true_iff.mp hmod).resolve_right Bool.false_ne_true)
        rw [finish, Function.update_self] at hk
        cases hk
  · rw [finish_of_not_modifies (Bool.eq_false_iff.mpr hmod)] at hk
    exact Or.inl hk

variable [DecidableEq I]

omit [Fintype I] [Fintype H] in
/-- A handle gets its block from another one, or with a new block. -/
theorem moves_source {ch : Choice H A} (hmoves : Moves s t ch s')
    (hknows : (s.point t).Knows s.handle) {k : H} {b : Nat} (hk : s'.controlBlock k = some b) :
    s.controlBlock k = some b ∨ (s.member t ch).modifies k = true
      ∧ (s.deed t ch = some (.create, b)
        ∨ ∃ j, s.controlBlock j = some b ∧ (s.member t ch).accesses j = true) := by
  cases hmoves with
  | construct this ptr hp hthis hfree =>
      by_cases hkt : k = this
      · subst hkt
        change (Function.update s.handle k _ k).bind _ = some b at hk
        rw [Function.update_self] at hk
        obtain rfl := Option.some.inj hk
        exact Or.inr ⟨member_modifies (Or.inr (decide_eq_true rfl)), Or.inl rfl⟩
      · change (Function.update s.handle this _ k).bind _ = some b at hk
        rw [Function.update_of_ne hkt] at hk
        exact Or.inl hk
  | moveConstruct this other hp hthis hfree hfree' =>
      have hother : (s.member t (.moveConstruct this other)).modifies other = true :=
        member_modifies (Or.inr (Bool.or_eq_true_iff.mpr (Or.inr (decide_eq_true rfl))))
      change (Function.update (Function.update s.handle this _) other _ k).bind _ = some b at hk
      by_cases hko : k = other
      · rw [hko, Function.update_self] at hk
        cases hk
      · rw [Function.update_of_ne hko] at hk
        by_cases hkt : k = this
        · rw [hkt, Function.update_self] at hk
          refine Or.inr ⟨member_modifies (Or.inr ?_), Or.inr ⟨other, hk, ?_⟩⟩
          · rw [hkt]
            exact Bool.or_eq_true_iff.mpr (Or.inl (decide_eq_true rfl))
          · exact Bool.or_eq_true_iff.mpr (Or.inl hother)
        · rw [Function.update_of_ne hkt] at hk
          exact Or.inl hk
  | destructNull this hp hfree hnull =>
      change (Function.update s.handle this none k).bind _ = some b at hk
      by_cases hkt : k = this
      · rw [hkt, Function.update_self] at hk
        cases hk
      · rw [Function.update_of_ne hkt] at hk
        exact Or.inl hk
  | addConstruct this other members c hp hc =>
      change (Function.update s.handle this _ k).bind _ = some b at hk
      by_cases hkt : k = this
      · subst hkt
        rw [Function.update_self] at hk
        rw [hp] at hknows
        refine Or.inr ⟨member_modifies (Or.inl ?_), Or.inr ⟨other, ?_, member_accesses (Or.inr ?_)⟩⟩
        · rw [hp]
          exact decide_eq_true rfl
        · rw [State.controlBlock, hknows.2]
          exact hk
        · rw [hp]
          exact decide_eq_true rfl
      · rw [Function.update_of_ne hkt] at hk
        exact Or.inl hk
  | finish c this after hp =>
      rcases finish_source hk with hsame | ⟨hmod, j, hj, huses⟩
      · exact Or.inl hsame
      · refine Or.inr ⟨member_modifies (Or.inl ?_), Or.inr ⟨j, hj, member_accesses ?_⟩⟩
        · rw [hp]
          exact hmod
        · rw [hp]
          exact huses.imp_left fun h => Bool.or_eq_true_iff.mpr (Or.inr h)
  | _ => exact Or.inl hk

omit [Fintype I] [Fintype H] in
/-- A `release_ref` gives back the reference of its handle, and no other. -/
theorem State.Holds.release {this k : H} {after : After H} {b c : Nat} {p : Point H A}
    (hk : s.Holds k b) (hp : s.point t = .releasing this after)
    (hhandle : s'.handle = s.handle) (hpoint : s'.point = Function.update s.point t p)
    (hgives : p = .disposing c this after ∨ p = .finishing c this after) :
    s'.Holds k b ∨ (s.member t .next).modifies k = true ∧ s.deed t .next = some (.count, b) := by
  by_cases hkt : k = this
  · subst hkt
    refine Or.inr ⟨member_modifies (Or.inl ?_), ?_⟩
    · rw [hp]
      exact Bool.or_eq_true_iff.mpr (Or.inl (decide_eq_true rfl))
    · simp only [State.deed, hp, State.target, hk.1, Option.map_some]
  · refine Or.inl (hk.keep (by rw [hhandle]) hpoint fun after' => ⟨fun heq => ?_, fun heq => ?_⟩)
    · rw [heq] at hgives
      rcases hgives with hgives | hgives
      · injection hgives with _ hthis _
        exact hkt hthis
      · cases hgives
    · rw [heq] at hgives
      rcases hgives with hgives | hgives
      · cases hgives
      · injection hgives with _ hthis _
        exact hkt hthis

/-- After a `release_ref`, the source of a move assignment passes its reference on. -/
theorem State.Holds.finish (hinv : Inv s) {this k : H} {after : After H} {b c : Nat}
    (hk : s.Holds k b) (hp : s.point t = .finishing c this after)
    (hhandle : s'.handle = finish s.handle this after)
    (hpoint : s'.point = Function.update s.point t .idle) : s'.Holds k b
      ∨ (s.member t .next).modifies k = true
        ∧ ∃ j, s'.Holds j b ∧ (s.member t .next).modifies j = true := by
  have hknows := hinv.knows t
  rw [hp] at hknows
  have hkt : k ≠ this := by
    rintro rfl
    obtain rfl := Option.some.inj (hknows.1.symm.trans hk.1)
    exact hk.2 t ⟨after, Or.inr hp⟩
  by_cases hmod : after.modifies k = true
  · cases after with
    | moveFrom other =>
        obtain rfl : k = other := of_decide_eq_true hmod
        have hboth : ∀ j, j = this ∨ j = k → (s.point t).modifies j = true := by
          intro j hj
          rw [hp]
          exact Bool.or_eq_true_iff.mpr (hj.imp decide_eq_true decide_eq_true)
        refine Or.inr ⟨member_modifies (Or.inl (hboth k (Or.inr rfl))), this, ⟨?_, ?_⟩,
          member_modifies (Or.inl (hboth this (Or.inl rfl)))⟩
        · rw [State.controlBlock, hhandle, ArcPointer.finish,
            Function.update_of_ne (Ne.symm hkt), Function.update_self]
          exact hk.1
        · -- the thread was the only one to modify its handle, and is done
          rintro u ⟨after', hu⟩
          rw [hpoint] at hu
          by_cases hut : u = t
          · rw [hut, Function.update_self] at hu
            rcases hu with hu | hu <;> cases hu
          · rw [Function.update_of_ne hut] at hu
            have hnot := (hinv.exclusive t u this (Ne.symm hut) (hboth this (Or.inl rfl))).1
            rw [spends_modifies ⟨after', hu⟩] at hnot
            cases hnot
    | _ => cases hmod
  · refine Or.inl (hk.keep ?_ hpoint fun _ => by simp)
    rw [hhandle]
    exact finish_of_not_modifies
      (Bool.or_eq_false_iff.mpr ⟨decide_eq_false hkt, Bool.eq_false_iff.mpr hmod⟩)

/-- A handle that holds a block goes on doing so, gives its reference back, or passes it
    on. -/
theorem moves_keeps (hinv : Inv s) {ch : Choice H A} (hmoves : Moves s t ch s') {k : H} {b : Nat}
    (hk : s.Holds k b) : s'.Holds k b ∨ (s.member t ch).modifies k = true
      ∧ (s.deed t ch = some (.count, b)
        ∨ ∃ j, s'.Holds j b ∧ (s.member t ch).modifies j = true) := by
  have hstay : s.point = Function.update s.point t (s.point t) :=
    (Function.update_eq_self t s.point).symm
  have hidle : s.point t = .idle →
      ∀ j after, s.point t ≠ .disposing b j after ∧ s.point t ≠ .finishing b j after :=
    fun hp j after => by simp [hp]
  -- a handle without a block is another one
  have hne : ∀ {this : H}, s.controlBlock this = none → k ≠ this := by
    rintro this hnull rfl
    rw [hk.1] at hnull
    cases hnull
  have hempty : ∀ {this : H}, s.handle this = none → k ≠ this := fun hthis =>
    hne (by rw [State.controlBlock, hthis]; rfl)
  cases hmoves with
  | construct this ptr hp hthis hfree =>
      exact Or.inl (hk.keep (Function.update_of_ne (hempty hthis) _ _) hstay (hidle hp k))
  | moveConstruct this other hp hthis hfree hfree' =>
      have hkt := hempty hthis
      by_cases hko : k = other
      · subst hko
        refine Or.inr ⟨member_modifies (Or.inr ?_), Or.inr ⟨this, ⟨?_, ?_⟩,
          member_modifies (Or.inr ?_)⟩⟩
        · exact Bool.or_eq_true_iff.mpr (Or.inr (decide_eq_true rfl))
        · show (Function.update (Function.update s.handle this _) k _ this).bind _ = some b
          rw [Function.update_of_ne (Ne.symm hkt), Function.update_self]
          exact hk.1
        · exact not_spends_update hstay (hidle hp this)
            (not_spends_of_readable (fun u => (hfree u).1) b)
        · exact Bool.or_eq_true_iff.mpr (Or.inl (decide_eq_true rfl))
      · refine Or.inl (hk.keep ?_ hstay (hidle hp k))
        show Function.update (Function.update s.handle this _) other _ k = _
        rw [Function.update_of_ne hko, Function.update_of_ne hkt]
  | copyAssignSame this other hp hsame => exact Or.inl hk
  | destructNull this hp hfree hnull =>
      exact Or.inl (hk.keep (Function.update_of_ne (hne hnull) _ _) hstay (hidle hp k))
  | addConstruct this other members c hp hc =>
      have hknows := hinv.knows t
      rw [hp] at hknows
      exact Or.inl (hk.keep (Function.update_of_ne (hempty hknows.1) _ _) rfl fun _ => by simp)
  | release this after c hp hc hpos =>
      exact Or.imp_right (fun h => ⟨h.1, Or.inl h.2⟩) (hk.release hp rfl rfl (Or.inr rfl))
  | releaseLast this after c hp hc hzero =>
      exact Or.imp_right (fun h => ⟨h.1, Or.inl h.2⟩) (hk.release hp rfl rfl (Or.inl rfl))
  | dispose c this after hp =>
      refine Or.inl (hk.keep rfl rfl fun after' => ⟨fun heq => ?_, fun heq => ?_⟩)
      · cases heq
      · -- the thread has given the reference of its handle back before
        injection heq with hcb hthis _
        exact hk.2 t ⟨after, Or.inl (by rw [hp, hcb, hthis])⟩
  | finish c this after hp =>
      exact Or.imp_right (fun h => ⟨h.1, Or.inr h.2⟩) (hk.finish hinv hp rfl rfl)
  | _ => exact Or.inl (hk.keep rfl rfl fun _ => by simp)

omit [Fintype I] [Fintype H] in
/-- The thread that brings a count to zero will dispose of the block. -/
theorem moves_disposing {ch : Choice H A} (hmoves : Moves s t ch s') {u : I} {b : Nat} {this : H}
    {after : After H} (hu : s'.point u = .disposing b this after) :
    s.point u = .disposing b this after ∨ (t = u ∧ s.deed t ch = some (.count, b)) := by
  by_cases hut : u = t
  · subst hut
    cases hmoves with
    | construct _ _ hp _ _ | moveConstruct _ _ hp _ _ _ | copyAssignSame _ _ hp _
      | destructNull _ hp _ _ => exact Or.inl hu
    | releaseLast this' after' c hp hc hzero =>
        change Function.update s.point u _ u = _ at hu
        rw [Function.update_self] at hu
        injection hu with hcb _ _
        refine Or.inr ⟨rfl, ?_⟩
        simp only [State.deed, hp, State.target, hc, Option.map_some, hcb]
    | _ =>
        change Function.update s.point u _ u = _ at hu
        rw [Function.update_self] at hu
        cases hu
  · obtain ⟨p, hpoint⟩ := moves_point hmoves
    rw [hpoint, Function.update_of_ne hut] at hu
    exact Or.inl hu

omit [Fintype I] [Fintype H] in
/-- A deleted block stays deleted, and blocks stay allocated. -/
theorem moves_blocks {ch : Choice H A} (hmoves : Moves s t ch s') :
    s.nextBlock ≤ s'.nextBlock ∧ ∀ b, b < s.nextBlock → (s.block b).deleted ≠ 0 →
      (s'.block b).deleted ≠ 0 := by
  have hset : ∀ (c : Nat) (k : Block A), (s.block c).deleted ≤ k.deleted →
      ∀ b, (s.block b).deleted ≠ 0 → (Function.update s.block c k b).deleted ≠ 0 := by
    intro c k hle b hb
    by_cases hbc : b = c
    · subst hbc
      rw [Function.update_self]
      omega
    · rwa [Function.update_of_ne hbc]
  cases hmoves with
  | construct this ptr hp hthis hfree =>
      refine ⟨Nat.le_succ _, fun b hb hdeleted => ?_⟩
      show (Function.update s.block s.nextBlock _ b).deleted ≠ 0
      rwa [Function.update_of_ne (Nat.ne_of_lt hb)]
  | addConstruct _ _ _ c hp hc | addAssign _ _ c hp hc =>
      exact ⟨Nat.le_refl _, fun b _ => hset c (s.block c).incremented (Nat.le_refl _) b⟩
  | release _ _ c hp hc _ | releaseLast _ _ c hp hc _ =>
      exact ⟨Nat.le_refl _, fun b _ => hset c (s.block c).decremented (Nat.le_refl _) b⟩
  | dispose c this after hp =>
      exact ⟨Nat.le_refl _, fun b _ => hset c _ (Nat.le_succ _) b⟩
  | _ => exact ⟨Nat.le_refl _, fun _ _ hdeleted => hdeleted⟩

omit [Fintype I] [Fintype H] in
/-- A block manages what it was made with. -/
theorem moves_manages {ch : Choice H A} (hmoves : Moves s t ch s') {b : Nat}
    (hb : b < s.nextBlock) : (s'.block b).mPtr = (s.block b).mPtr := by
  have hset : ∀ (c : Nat) (k : Block A), k.mPtr = (s.block c).mPtr →
      (Function.update s.block c k b).mPtr = (s.block b).mPtr := by
    intro c k hk
    by_cases hbc : b = c
    · rw [hbc, Function.update_self, hk]
    · rw [Function.update_of_ne hbc]
  cases hmoves with
  | construct this ptr hp hthis hfree =>
      exact congrArg Block.mPtr (Function.update_of_ne (Nat.ne_of_lt hb) _ _)
  | addConstruct _ _ _ c hp hc | addAssign _ _ c hp hc => exact hset c (s.block c).incremented rfl
  | release _ _ c hp hc _ | releaseLast _ _ c hp hc _ => exact hset c (s.block c).decremented rfl
  | dispose c this after hp => exact hset c (s.block c).disposed rfl
  | _ => rfl

omit [Fintype I] [Fintype H] in
/-- A block is made with a pointer, and disposes of the object of that pointer. -/
theorem moves_pointer {ch : Choice H A} (hmoves : Moves s t ch s') {d : Deed} {b : Nat}
    (h : s.deed t ch = some (d, b)) (hd : d ≠ .count) : s.pointer t ch = (s'.block b).mPtr := by
  rcases deed_cases h with ⟨this, ptr, rfl, -, rfl⟩ | ⟨rfl, -, this, after, hp⟩ | ⟨-, rfl, -⟩
  · cases hmoves with
    | construct this ptr hp hthis hfree =>
        show ptr = (Function.update s.block s.nextBlock (.construct ptr) s.nextBlock).mPtr
        rw [Function.update_self]
        rfl
  · have hpointer : s.pointer t .next = (s.block b).mPtr := by simp only [State.pointer, hp]
    rw [hpointer]
    cases hmoves with
    | dispose c this' after' hp' =>
        rw [hp] at hp'
        injection hp' with hbc _ _
        show _ = (Function.update s.block c _ b).mPtr
        rw [hbc, Function.update_self]
        rfl
    | addConstruct _ _ _ _ hp' _ | addAssign _ _ _ hp' _ | release _ _ _ hp' _ _
      | releaseLast _ _ _ hp' _ _ | finish _ _ _ hp' => cases hp.symm.trans hp'
    | crash hatomic _ =>
        rw [hp] at hatomic
        cases hatomic
  · exact absurd rfl hd

/-- **What a step of a member does.** -/
theorem member_effect (hinv : Inv s) {ch : Choice H A} (hmoves : Moves s t ch s') :
    Effect s (s.member t ch) s' where
  source _ _ hk := moves_source hmoves (hinv.knows t) hk
  keeps _ _ hk := moves_keeps hinv hmoves hk
  creates b hb := by
    obtain ⟨this, ptr, rfl, -, rfl⟩ | ⟨-, hd, -⟩ | ⟨-, hd, -⟩ := deed_cases hb
    · cases hmoves with
      | construct this ptr hp hthis hfree =>
          refine ⟨rfl, this, ⟨?_, ?_⟩, member_modifies (Or.inr (decide_eq_true rfl))⟩
          · show (Function.update s.handle this _ this).bind _ = _
            rw [Function.update_self]
            rfl
          · exact not_spends_of_readable (fun u => (hfree u).1) _
    · cases hd
    · cases hd
  reaches _ _ hb hd := deed_reaches hinv hb hd
  counts b hb := by
    obtain ⟨-, -, -, hd, -⟩ | ⟨-, hd, -⟩ | ⟨-, -, htarget⟩ := deed_cases hb
    · cases hd
    · cases hd
    · exact (hinv.target_live htarget).2
  uses b hb := by
    obtain ⟨-, -, -, hd, -⟩ | ⟨-, hd, -⟩ | ⟨-, hd, -⟩ := deed_cases hb <;> cases hd
  disposes b hb := by
    obtain ⟨-, -, -, hd, -⟩ | ⟨rfl, -, this, after, hp⟩ | ⟨-, hd, -⟩ := deed_cases hb
    · cases hd
    · refine ⟨?_, this, after, hp⟩
      cases hmoves with
      | dispose c this' after' hp' =>
          rw [hp] at hp'
          injection hp' with hbc _ _
          show (Function.update s.block c _ b).deleted ≠ 0
          rw [hbc, Function.update_self]
          exact Nat.succ_ne_zero _
      | addConstruct _ _ _ _ hp' _ | addAssign _ _ _ hp' _ | release _ _ _ hp' _ _
        | releaseLast _ _ _ hp' _ _ | finish _ _ _ hp' => cases hp.symm.trans hp'
      | crash hatomic _ =>
          rw [hp] at hatomic
          cases hatomic
    · cases hd
  disposing _ _ _ _ hu := moves_disposing hmoves hu
  deleted b hb hdeleted := (moves_blocks hmoves).2 b hb hdeleted
  nextBlock := by
    refine ⟨(moves_blocks hmoves).1, fun b hb => ?_⟩
    obtain ⟨this, ptr, rfl, -, rfl⟩ | ⟨-, hd, -⟩ | ⟨-, hd, -⟩ := deed_cases hb
    · cases hmoves with
      | construct this ptr hp hthis hfree => exact Nat.lt_succ_self _
    · cases hd
    · cases hd
  manages _ hb := moves_manages hmoves hb
  pointer _ _ h hd := moves_pointer hmoves h hd

omit [DecidableEq I] in
/-- What a use of an object does. -/
theorem use_effect (hinv : Inv s) (hagree : Agree s) {k : H} {p : A} (hget : s.get k = some p)
    (hread : s.readable k) : Effect s (useOf t k (s.controlBlock k) p) s := by
  have hdeed : ∀ {d c}, (useOf t k (s.controlBlock k) p : Event I H A).deed = some (d, c) →
      d = .use ∧ s.controlBlock k = some c := by
    intro d c h
    obtain ⟨b, hb, heq⟩ := Option.map_eq_some_iff.mp h
    obtain ⟨rfl, rfl⟩ := Prod.mk.inj heq
    exact ⟨rfl, hb⟩
  have hholds : ∀ {c}, s.controlBlock k = some c → s.Holds k c :=
    fun hc => ⟨hc, not_spends_of_readable hread _⟩
  have haccess : (useOf t k (s.controlBlock k) p : Event I H A).accesses k = true :=
    decide_eq_true rfl
  refine ⟨fun _ _ h => Or.inl h, fun _ _ h => Or.inl h, ?_, ?_, ?_, ?_, ?_,
    fun _ _ _ _ h => Or.inl h, fun _ _ h => h, ⟨Nat.le_refl _, ?_⟩, fun _ _ => rfl, ?_⟩
  · exact fun c hc => nomatch (hdeed hc).1
  · intro d c hc _
    obtain ⟨-, hk⟩ := hdeed hc
    have hlive := hinv.live hk (hholds hk).2
    exact ⟨hlive.1, hinv.books.deleted_eq_zero hlive, k, hk, haccess⟩
  · exact fun c hc => nomatch (hdeed hc).1
  · intro c hc
    exact ⟨k, hholds (hdeed hc).2, haccess⟩
  · exact fun c hc => nomatch (hdeed hc).1
  · exact fun c hc => nomatch (hdeed hc).1
  · -- the pointer of the handle is that of its block
    intro d c hc _
    obtain ⟨o, ho, hptr⟩ := Option.bind_eq_some_iff.mp hget
    have hk := (hdeed hc).2
    rw [State.controlBlock, ho] at hk
    exact hptr.symm.trans (hagree k o ho c hk).2.symm

end Effects

/-! ## What has happened before -/

section Order

variable {tr : List (Event I H A)} {i j : Nat} {x y : Event I H A} {d : Deed} {b : Nat}

/-- Whoever gets the handle knows of the creation of the block. -/
def KnowsCreation (tr : List (Event I H A)) (k : H) (b : Nat) : Prop :=
  ∃ j y, tr[j]? = some y ∧ y.modifies k = true
    ∧ ∀ i x, tr[i]? = some x → x.deed = some (.create, b) → Precedes Synchronises tr i j

/-- An operation on the count of the block has synchronised with event `i`. -/
def Counted (tr : List (Event I H A)) (b i : Nat) : Prop :=
  ∃ j y, tr[j]? = some y ∧ y.deed = some (.count, b) ∧ Precedes Synchronises tr i j

/-- An operation on the handle has synchronised with event `i`. -/
def Accessed (tr : List (Event I H A)) (k : H) (i : Nat) : Prop :=
  ∃ j y, tr[j]? = some y ∧ y.accesses k = true ∧ Precedes Synchronises tr i j

/-- The life of a block and its object: it begins before anything else is done with them,
    and it ends after everything else; the object that is used, and that is destroyed in
    the end, is the one the block was made with. -/
structure LivesInOrder (tr : List (Event I H A)) : Prop where
  created : ∀ (i j : Nat) (x y : Event I H A) (d : Deed) (b : Nat), tr[i]? = some x →
    tr[j]? = some y → x.deed = some (.create, b) → y.deed = some (d, b) → i ≠ j →
    Before Synchronises tr i j
  disposed : ∀ (i j : Nat) (x y : Event I H A) (d : Deed) (b : Nat), tr[i]? = some x →
    tr[j]? = some y → x.deed = some (d, b) → y.deed = some (.dispose, b) → i ≠ j →
    Before Synchronises tr i j
  object : ∀ (i j : Nat) (x y : Event I H A) (d d' : Deed) (b : Nat), tr[i]? = some x →
    tr[j]? = some y → x.deed = some (d, b) → y.deed = some (d', b) → d ≠ .count →
    d' ≠ .count → x.pointer = y.pointer

/-- The invariant. -/
structure Ordered (tr : List (Event I H A)) (s : State I H A) : Prop where
  allocated : ∀ (i : Nat) (x : Event I H A) (d : Deed) (b : Nat), tr[i]? = some x →
    x.deed = some (d, b) → b < s.nextBlock
  gone : ∀ (i : Nat) (x : Event I H A) (b : Nat), tr[i]? = some x →
    x.deed = some (.dispose, b) → (s.block b).deleted ≠ 0
  known : ∀ k b, s.controlBlock k = some b → KnowsCreation tr k b
  settled : ∀ (i : Nat) (x : Event I H A) (d : Deed) (b : Nat), tr[i]? = some x →
    x.deed = some (d, b) → d ≠ .dispose →
    Counted tr b i ∨ ∃ k, s.Holds k b ∧ Accessed tr k i
  last : ∀ t b this after, s.point t = .disposing b this after →
    ∃ (r : Nat) (z : Event I H A), tr[r]? = some z ∧ z.thread = t
      ∧ ∀ i, Counted tr b i → Precedes Synchronises tr i r
  pointer : ∀ (i : Nat) (x : Event I H A) (d : Deed) (b : Nat), tr[i]? = some x →
    x.deed = some (d, b) → d ≠ .count → x.pointer = (s.block b).mPtr
  lives : LivesInOrder tr

/-! ### One more event -/

theorem Counted.snoc (h : Counted tr b i) (e : Event I H A) : Counted (tr ++ [e]) b i := by
  obtain ⟨j, y, hy, hcount, hij⟩ := h
  exact ⟨j, y, getElem?_snoc hy, hcount, hij.snoc e⟩

theorem Accessed.snoc {k : H} (h : Accessed tr k i) (e : Event I H A) :
    Accessed (tr ++ [e]) k i := by
  obtain ⟨j, y, hy, haccess, hij⟩ := h
  exact ⟨j, y, getElem?_snoc hy, haccess, hij.snoc e⟩

/-- An event that modifies a handle comes after what was done by way of it. -/
theorem Accessed.before {k : H} (h : Accessed tr k i) (he : e.modifies k = true) :
    Before Synchronises (tr ++ [e]) i tr.length := by
  obtain ⟨j, y, hy, haccess, hij⟩ := h
  exact hij.last hy (Or.inr (Or.inr ⟨k, Or.inr ⟨haccess, he⟩⟩))

/-- An event that accesses a handle comes after the creation of its block. -/
theorem KnowsCreation.before {k : H} (h : KnowsCreation tr k b) (he : e.accesses k = true)
    (hx : tr[i]? = some x) (hcreate : x.deed = some (.create, b)) :
    Before Synchronises (tr ++ [e]) i tr.length := by
  obtain ⟨j, y, hy, hmodifies, hall⟩ := h
  exact (hall i x hx hcreate).last hy (Or.inr (Or.inr ⟨k, Or.inl ⟨hmodifies, he⟩⟩))

/-- A block that some event has had to do with is not created once more. -/
theorem Ordered.not_again (h : Ordered tr s) (he : Effect s e s') (hx : tr[i]? = some x)
    (hdeed : x.deed = some (d, b)) : e.deed ≠ some (.create, b) := by
  intro hcreate
  have hlt := h.allocated i x d b hx hdeed
  rw [(he.creates b hcreate).1] at hlt
  exact Nat.lt_irrefl _ hlt

/-- Nothing is done with a block that has been disposed of. -/
theorem Ordered.not_after (h : Ordered tr s) (he : Effect s e s') (hx : tr[i]? = some x)
    (hdispose : x.deed = some (.dispose, b)) : e.deed ≠ some (d, b) := by
  intro hdeed
  by_cases hd : d = .create
  · subst hd
    exact h.not_again he hx hdispose hdeed
  · exact h.gone i x b hx hdispose (he.reaches d b hdeed hd).2.1

theorem KnowsCreation.concat {k : H} (hold : ∀ i x, tr[i]? = some x →
      x.deed = some (.create, b) → Precedes Synchronises (tr ++ [e]) i tr.length)
    (he : e.modifies k = true) : KnowsCreation (tr ++ [e]) k b := by
  refine ⟨tr.length, e, List.getElem?_concat_length, he, ?_⟩
  intro i x hx hcreate
  rcases getElem?_concat hx with hx | ⟨rfl, -⟩
  · exact hold i x hx hcreate
  · exact Or.inl rfl

variable [DecidableEq H] [Fintype I] [Fintype H]

theorem Ordered.known_step (h : Ordered tr s) (hinv : Inv s) (he : Effect s e s') {k : H}
    (hk : s'.controlBlock k = some b) : KnowsCreation (tr ++ [e]) k b := by
  rcases he.source k b hk with hsame | ⟨hmodifies, hcreate | ⟨j, hj, haccess⟩⟩
  · obtain ⟨j, y, hy, hmodifies, hall⟩ := h.known k b hsame
    refine ⟨j, y, getElem?_snoc hy, hmodifies, ?_⟩
    intro i x hx hcreate
    rcases getElem?_concat hx with hx | ⟨-, rfl⟩
    · exact (hall i x hx hcreate).snoc e
    · -- the block of a handle is not a new one
      have hlt := hinv.allocated hsame
      rw [(he.creates b hcreate).1] at hlt
      exact absurd hlt (Nat.lt_irrefl _)
  · exact KnowsCreation.concat
      (fun i x hx hcreate' => absurd hcreate (h.not_again he hx hcreate')) hmodifies
  · exact KnowsCreation.concat
      (fun i x hx hcreate => Or.inr ((h.known j b hj).before haccess hx hcreate)) hmodifies

omit [DecidableEq H] [Fintype I] [Fintype H] in
theorem Ordered.settled_step (h : Ordered tr s) (he : Effect s e s')
    (hx : (tr ++ [e])[i]? = some x) (hdeed : x.deed = some (d, b)) (hd : d ≠ .dispose) :
    Counted (tr ++ [e]) b i ∨ ∃ k, s'.Holds k b ∧ Accessed (tr ++ [e]) k i := by
  have hlast : (tr ++ [e])[tr.length]? = some e := List.getElem?_concat_length
  rcases getElem?_concat hx with hx | ⟨rfl, rfl⟩
  · rcases h.settled i x d b hx hdeed hd with hcounted | ⟨k, hk, haccessed⟩
    · exact Or.inl (hcounted.snoc e)
    · rcases he.keeps k b hk with hk' | ⟨hmodifies, hcount | ⟨j, hj, hmodifies'⟩⟩
      · exact Or.inr ⟨k, hk', haccessed.snoc e⟩
      · exact Or.inl ⟨_, e, hlast, hcount, Or.inr (haccessed.before hmodifies)⟩
      · refine Or.inr ⟨j, hj, _, e, hlast, ?_, Or.inr (haccessed.before hmodifies)⟩
        exact Bool.or_eq_true_iff.mpr (Or.inl hmodifies')
  · cases d with
    | create =>
        obtain ⟨-, k, hk, hmodifies⟩ := he.creates b hdeed
        exact Or.inr ⟨k, hk, _, x, hlast, Bool.or_eq_true_iff.mpr (Or.inl hmodifies), Or.inl rfl⟩
    | count => exact Or.inl ⟨_, x, hlast, hdeed, Or.inl rfl⟩
    | use =>
        obtain ⟨k, hk, haccess⟩ := he.uses b hdeed
        exact Or.inr ⟨k, hk, _, x, hlast, haccess, Or.inl rfl⟩
    | dispose => exact absurd rfl hd

theorem Ordered.last_step (h : Ordered tr s) (hinv : Inv s) (he : Effect s e s') {this : H}
    {after : After H} (ht : s'.point t = .disposing b this after) : ∃ r z,
      (tr ++ [e])[r]? = some z ∧ z.thread = t
        ∧ ∀ i, Counted (tr ++ [e]) b i → Precedes Synchronises (tr ++ [e]) i r := by
  rcases he.disposing t b this after ht with hold | ⟨rfl, hcount⟩
  · obtain ⟨r, z, hz, hzt, hall⟩ := h.last t b this after hold
    refine ⟨r, z, getElem?_snoc hz, hzt, ?_⟩
    rintro i ⟨j, y, hy, hcount, hij⟩
    rcases getElem?_concat hy with hy | ⟨-, rfl⟩
    · have hj := (hall j ⟨j, y, hy, hcount, Or.inl rfl⟩).snoc e
      exact hij.trans hj
    · -- the count is zero, and nobody operates on it any more
      exact absurd (he.counts b hcount) (Nat.not_lt.mpr (Nat.le_of_eq (hinv.last hold).2.1))
  · refine ⟨tr.length, e, List.getElem?_concat_length, rfl, ?_⟩
    rintro i ⟨j, y, hy, hcount', hij⟩
    rcases getElem?_concat hy with hy | ⟨rfl, -⟩
    · have hj : Precedes Synchronises tr j j := Or.inl rfl
      exact hij.trans (Or.inr (hj.last hy (Or.inr (Or.inl ⟨b, hcount', hcount⟩))))
    · exact hij

/-- Whoever disposes of a block has synchronised with everything done with it. -/
theorem Ordered.disposed_last (h : Ordered tr s) (hinv : Inv s) (he : Effect s e s')
    (hdispose : e.deed = some (.dispose, b)) (hx : tr[i]? = some x)
    (hdeed : x.deed = some (d, b)) : Before Synchronises (tr ++ [e]) i tr.length := by
  obtain ⟨-, this, after, hp⟩ := he.disposes b hdispose
  have hd : d ≠ .dispose := by
    rintro rfl
    exact h.not_after he hx hdeed hdispose
  obtain ⟨r, z, hz, hzt, hall⟩ := h.last e.thread b this after hp
  rcases h.settled i x d b hx hdeed hd with hcounted | ⟨k, hk, -⟩
  · exact (hall i hcounted).last hz (Or.inl hzt)
  · -- a handle that holds the block would keep its count from being zero
    have hlive := hinv.live hk.1 hk.2
    exact absurd (hinv.last hp).2.1 (Nat.ne_of_gt hlive.2)

omit [DecidableEq H] [Fintype I] [Fintype H] in
theorem Ordered.pointer_step (h : Ordered tr s) (he : Effect s e s')
    (hx : (tr ++ [e])[i]? = some x) (hdeed : x.deed = some (d, b)) (hd : d ≠ .count) :
    x.pointer = (s'.block b).mPtr := by
  rcases getElem?_concat hx with hx | ⟨-, rfl⟩
  · rw [he.manages b (h.allocated i x d b hx hdeed)]
    exact h.pointer i x d b hx hdeed hd
  · exact he.pointer d b hdeed hd

/-- **The step lemma.** -/
theorem Ordered.snoc (h : Ordered tr s) (hinv : Inv s) (he : Effect s e s') :
    Ordered (tr ++ [e]) s' where
  allocated i x d b hx hdeed := by
    rcases getElem?_concat hx with hx | ⟨-, rfl⟩
    · exact Nat.lt_of_lt_of_le (h.allocated i x d b hx hdeed) he.nextBlock.1
    · by_cases hd : d = .create
      · subst hd
        exact he.nextBlock.2 b hdeed
      · exact Nat.lt_of_lt_of_le (he.reaches d b hdeed hd).1 he.nextBlock.1
  gone i x b hx hdispose := by
    rcases getElem?_concat hx with hx | ⟨-, rfl⟩
    · exact he.deleted b (h.allocated i x _ b hx hdispose) (h.gone i x b hx hdispose)
    · exact (he.disposes b hdispose).1
  known _ _ hk := h.known_step hinv he hk
  settled _ _ _ _ hx hdeed hd := h.settled_step he hx hdeed hd
  last _ _ _ _ ht := h.last_step hinv he ht
  pointer _ _ _ _ hx hdeed hd := h.pointer_step he hx hdeed hd
  lives := by
    refine ⟨?_, ?_, ?_⟩
    · intro i j x y d b hx hy hcreate hdeed hij
      rcases getElem?_concat hx with hx' | ⟨rfl, rfl⟩
      · rcases getElem?_concat hy with hy' | ⟨rfl, rfl⟩
        · exact (h.lives.created i j x y d b hx' hy' hcreate hdeed hij).snoc e
        · have hd : d ≠ .create := by
            rintro rfl
            exact h.not_again he hx' hcreate hdeed
          obtain ⟨-, -, k, hk, haccess⟩ := he.reaches d b hdeed hd
          exact (h.known k b hk).before haccess hx' hcreate
      · rcases getElem?_concat hy with hy' | ⟨rfl, -⟩
        · exact absurd hcreate (h.not_again he hy' hdeed)
        · exact absurd rfl hij
    · intro i j x y d b hx hy hdeed hdispose hij
      rcases getElem?_concat hy with hy' | ⟨rfl, rfl⟩
      · rcases getElem?_concat hx with hx' | ⟨-, rfl⟩
        · exact (h.lives.disposed i j x y d b hx' hy' hdeed hdispose hij).snoc e
        · exact absurd hdeed (h.not_after he hy' hdispose)
      · rcases getElem?_concat hx with hx' | ⟨rfl, -⟩
        · exact h.disposed_last hinv he hdispose hx' hdeed
        · exact absurd rfl hij
    · intro i j x y d d' b hx hy hdeed hdeed' hd hd'
      exact (h.pointer_step he hx hdeed hd).trans (h.pointer_step he hy hdeed' hd').symm

omit [DecidableEq H] [Fintype I] [Fintype H] in
theorem ordered_start (blank : Block A) :
    Ordered ([] : List (Event I H A)) (start blank) := by
  have hnone : ∀ {i : Nat} {x : Event I H A}, ([] : List (Event I H A))[i]? ≠ some x :=
    fun h => absurd h.symm (Option.some_ne_none _)
  exact ⟨fun _ _ _ _ hx => absurd hx hnone, fun _ _ _ hx => absurd hx hnone,
    fun _ _ hk => (nomatch hk), fun _ _ _ _ hx => absurd hx hnone, fun _ _ _ _ hp => (nomatch hp),
    fun _ _ _ _ hx => absurd hx hnone, fun _ _ _ _ _ _ hx => absurd hx hnone,
    fun _ _ _ _ _ _ hx => absurd hx hnone, fun _ _ _ _ _ _ _ hx => absurd hx hnone⟩

end Order

/-! ## Whole runs -/

section Runs

variable [DecidableEq I] [Fintype I] [DecidableEq H] [Fintype H] {tr : List (Event I H A)}

/-- What a thread does next keeps the invariant of the counts, and has an effect. -/
theorem perform_effect {a : Act H A} (hinv : Inv s) (hagree : Agree s) (hnull : NoNullAct s t a)
    (hperform : s.perform t a = some (e, s')) : Inv s' ∧ Agree s' ∧ Effect s e s' := by
  cases a with
  | member ch =>
      obtain ⟨s'', hstep, heq⟩ := Option.map_eq_some_iff.mp hperform
      obtain ⟨rfl, rfl⟩ := Prod.mk.inj heq
      have hmoves := step_moves hstep
      exact ⟨inv_step hinv hnull hstep, agree_step hagree (hinv.knows t) hmoves,
        member_effect hinv hmoves⟩
  | use k =>
      rw [State.perform] at hperform
      split at hperform
      · rename_i p hp hget
        obtain ⟨hread, heq⟩ := Option.ite_none_right_eq_some.mp hperform
        obtain ⟨rfl, rfl⟩ := Prod.mk.inj (Option.some.inj heq)
        exact ⟨hinv, hagree, use_effect hinv hagree hget hread⟩
      · cases hperform

theorem run_ordered (h : Run (soundAccesses I H A) tr s) : Inv s ∧ Agree s ∧ Ordered tr s := by
  refine Run.invariant (I := fun tr s => Inv s ∧ Agree s ∧ Ordered tr s) ?_ ?_ h
  · rintro s ⟨blank, rfl⟩
    exact ⟨run_inv (.start ⟨blank, rfl⟩), fun _ _ hk => (nomatch hk), ordered_start blank⟩
  · rintro tr s e s' - ⟨hinv, hagree, hordered⟩ ⟨hperform, hnull⟩
    obtain ⟨hinv', hagree', he⟩ := perform_effect hinv hagree hnull hperform
    exact ⟨hinv', hagree', hordered.snoc hinv he⟩

omit [Fintype H] in
/-- What a thread does next is a step of the system. -/
theorem perform_step {a : Act H A} (hnull : NoNullAct s t a)
    (hperform : s.perform t a = some (e, s')) : (soundAccesses I H A).step s e s' := by
  have hlabel : e.thread = t ∧ e.act = a := by
    cases a with
    | member ch =>
        obtain ⟨s'', -, heq⟩ := Option.map_eq_some_iff.mp hperform
        obtain ⟨rfl, -⟩ := Prod.mk.inj heq
        exact ⟨rfl, rfl⟩
    | use k =>
        rw [State.perform] at hperform
        split at hperform
        · obtain ⟨-, heq⟩ := Option.ite_none_right_eq_some.mp hperform
          obtain ⟨rfl, -⟩ := Prod.mk.inj (Option.some.inj heq)
          exact ⟨rfl, rfl⟩
        · cases hperform
  obtain ⟨rfl, rfl⟩ := hlabel
  exact ⟨hperform, hnull⟩

omit [Fintype H] in
theorem run_performAll {as : List (I × Act H A)} {es : List (Event I H A)}
    (h : Run (soundAccesses I H A) tr s) (has : s.performAll as = some (es, s')) :
    Run (soundAccesses I H A) (tr ++ es) s' := by
  induction as generalizing tr s es with
  | nil =>
      obtain ⟨rfl, rfl⟩ := Prod.mk.inj (Option.some.inj has)
      rwa [List.append_nil]
  | cons a as ih =>
      obtain ⟨hnull, hbind⟩ := Option.ite_none_right_eq_some.mp has
      obtain ⟨⟨e, s₁⟩, hperform, hmap⟩ := Option.bind_eq_some_iff.mp hbind
      obtain ⟨⟨es', s₂⟩, hrest, heq⟩ := Option.map_eq_some_iff.mp hmap
      obtain ⟨rfl, rfl⟩ := Prod.mk.inj heq
      have hall := ih (h.snoc (perform_step hnull hperform)) hrest
      rwa [List.append_assoc] at hall

end Runs

/-- One thread makes an object and a copy of its handle, for another thread, which uses the
    object and then destroys its handle; the first thread destroys its own, and the object. -/
def lastOwner : List (Bool × Act Bool Nat) :=
  [(false, .member (.construct false (some 7))), (false, .member (.copyConstruct true false)),
    (false, .member .next), (true, .use true), (true, .member (.destruct true)),
    (true, .member .next), (true, .member .next), (false, .member (.destruct false)),
    (false, .member .next), (false, .member .next)]

/-- A move assignment takes the control block of its source and leaves the pointer; the new
    owner is destroyed, and the source asked for its pointer. -/
def movedFromUse : List (Unit × Act Bool Nat) :=
  [((), .member (.construct false (some 7))), ((), .member (.construct true none)),
    ((), .member (.moveAssign true false)), ((), .member .next), ((), .member .next),
    ((), .member .next), ((), .member (.destruct true)), ((), .member .next),
    ((), .member .next), ((), .member .next), ((), .use false)]

-- the object is used after its destruction, by a handle that does not own its pointer
example : ∃ tr s x y,
    (start (.construct none) : State Unit Bool Nat).performAll movedFromUse = some (tr, s)
      ∧ tr[8]? = some x ∧ x.deed = some (.dispose, 0) ∧ x.pointer = some 7
      ∧ tr[10]? = some y ∧ y.act = .use false ∧ y.deed = none ∧ y.pointer = some 7 :=
  ⟨_, _, _, _, rfl, rfl, rfl, rfl, rfl, rfl, rfl, rfl⟩

end ArcPointer
