import CppPlayground.ArcPointer.Counting

/-! # `ArcPointer`: the reference count is exact

    A thread that is about to add a reference to a block or to release one uses a handle
    that refers to the block and whose reference nobody has given back.  Each reference
    that is given back is in a handle of its own, so there is one handle more than that
    and the count is not zero (`Inv.target_live`).  With the balance of all blocks this is
    an invariant, and `CountsExactly` is what follows from it. -/

namespace ArcPointer

open Transition Threads

variable {I H A : Type} {s s' : State I H A} {t : I}

section Invariant

variable [DecidableEq H] [Fintype I] [Fintype H]

/-- Handles are used exclusively, threads know their handles, the books are balanced, and
    nothing undefined has happened. -/
structure Inv (s : State I H A) : Prop where
  exclusive : Exclusive s.point
  knows : ∀ u, (s.point u).Knows s.handle
  books : Books s
  running : ∀ u, s.point u ≠ .crashed

omit [Fintype I] [Fintype H] in
theorem spends_modifies {b : Nat} {u : I} {k : H} (h : s.spends b u k) :
    (s.point u).modifies k = true := by
  obtain ⟨after, hp | hp⟩ := h <;> rw [hp] <;>
    exact Bool.or_eq_true_iff.mpr (Or.inl (decide_eq_true rfl))

/-- A handle whose reference nobody has given back refers to a live block. -/
theorem Inv.live (h : Inv s) {k : H} {b : Nat} (hk : s.controlBlock k = some b)
    (hkept : ∀ u, ¬ s.spends b u k) : s.live b := by
  have hlt : s.givenBack b < s.handles b := by
    refine number_lt_number (s.spends b) ?_ ?_ (refersTo_eq_true.mpr hk) hkept
    · intro u hgave
      obtain ⟨j, after, hp⟩ := gaveBack_eq_true.mp hgave
      have hknows := h.knows u
      refine ⟨j, refersTo_eq_true.mpr ?_, after, hp⟩
      rcases hp with hp | hp <;> rw [hp] at hknows <;> exact hknows.1
    · -- two threads that give back the same handle would both modify it
      intro u v j hu hv
      by_contra huv
      have := (h.exclusive u v j huv (spends_modifies hu)).1
      rw [spends_modifies hv] at this
      exact nomatch this
  have hallocated : b < s.nextBlock := by
    by_contra hge
    have := (h.books.fresh b (Nat.le_of_not_lt hge)).1
    omega
  have := (h.books.balance b hallocated).exact
  exact ⟨hallocated, by omega⟩

/-- A handle that an operation reads, and is not releasing, is not given back. -/
theorem Inv.not_spends (h : Inv s) {k : H} {b : Nat}
    (huses : (s.point t).modifies k = true ∨ (s.point t).reads k = true)
    (hself : ¬ s.spends b t k) (u : I) : ¬ s.spends b u k := by
  intro hspends
  by_cases hu : u = t
  · subst hu
    exact hself hspends
  · obtain ⟨hmod, hread⟩ := h.exclusive u t k hu (spends_modifies hspends)
    rw [hmod, hread] at huses
    exact absurd huses (by decide)

/-- **Every `add_ref` and every `release_ref` reaches a live block.** -/
theorem Inv.target_live (h : Inv s) {b : Nat} (htarget : s.target t = some b) : s.live b := by
  have hknows := h.knows t
  have hself : ∀ k, (s.point t).atomic = true → ¬ s.spends b t k := by
    rintro k hatomic ⟨after, hp | hp⟩ <;> rw [hp] at hatomic <;>
      exact absurd hatomic Bool.false_ne_true
  rw [State.target] at htarget
  cases hp : s.point t with
  | addingConstruct this other members =>
      rw [hp] at htarget hknows
      refine h.live (k := other) ?_ (h.not_spends (t := t) (Or.inr ?_) (hself other ?_))
      · rw [State.controlBlock, hknows.2]
        exact htarget
      · rw [hp]
        exact decide_eq_true rfl
      · rw [hp]
        rfl
  | addingAssign this other =>
      rw [hp] at htarget
      refine h.live htarget (h.not_spends (t := t) (Or.inr ?_) (hself other ?_))
      · rw [hp]
        exact decide_eq_true rfl
      · rw [hp]
        rfl
  | releasing this after =>
      rw [hp] at htarget
      refine h.live htarget (h.not_spends (t := t) (Or.inl ?_) (hself this ?_))
      · rw [hp]
        exact Bool.or_eq_true_iff.mpr (Or.inl (decide_eq_true rfl))
      · rw [hp]
        rfl
  | _ =>
      rw [hp] at htarget
      cases htarget

omit [Fintype I] [Fintype H] in
/-- The source of a copy assignment is not its target, and keeps its reference. -/
theorem source_of_takes {b : Nat} {u : I} (hknows : (s.point u).Knows s.handle)
    (htakes : (s.point u).takes b = true) :
    ∃ other, s.controlBlock other = some b ∧ (s.point u).reads other = true
      ∧ ¬ s.spends b u other := by
  have hsource : ∀ (this : H) (after : After H), after.takes b = true →
      after.Knows s.handle this →
      ∃ other, s.controlBlock other = some b ∧ after.reads other = true ∧ other ≠ this := by
    intro this after htaken hafter
    cases after with
    | copyFrom other taken =>
        obtain rfl : taken = b := of_decide_eq_true htaken
        exact ⟨other, hafter.2, decide_eq_true rfl, hafter.1⟩
    | moveFrom other => exact nomatch htaken
    | destroy => exact nomatch htaken
  cases hp : s.point u with
  | releasing this after =>
      rw [hp] at hknows htakes
      obtain ⟨other, hcb, hreads, -⟩ := hsource this after htakes hknows
      refine ⟨other, hcb, hreads, ?_⟩
      rintro ⟨after', hq | hq⟩ <;> rw [hp] at hq <;> exact nomatch hq
  | disposing c this after =>
      rw [hp] at hknows htakes
      obtain ⟨other, hcb, hreads, hne⟩ := hsource this after htakes hknows.2
      refine ⟨other, hcb, hreads, ?_⟩
      rintro ⟨after', hq | hq⟩ <;> rw [hp] at hq
      · injection hq with _ hthis _
        exact hne hthis.symm
      · exact nomatch hq
  | finishing c this after =>
      rw [hp] at hknows htakes
      obtain ⟨other, hcb, hreads, hne⟩ := hsource this after htakes hknows.2
      refine ⟨other, hcb, hreads, ?_⟩
      rintro ⟨after', hq | hq⟩ <;> rw [hp] at hq
      · exact nomatch hq
      · injection hq with _ hthis _
        exact hne hthis.symm
  | _ =>
      rw [hp] at htakes
      exact nomatch htakes

/-- When the count of a block is zero, no reference to it is taken, and every handle that
    refers to it is one whose reference has been given back. -/
theorem Inv.unreferenced (h : Inv s) {b : Nat} (hzero : (s.block b).mNumShared = 0) :
    s.taken b = 0 ∧ ∀ k, s.controlBlock k = some b → ∃ u, s.spends b u k := by
  have hspent : ∀ k, s.controlBlock k = some b → ∃ u, s.spends b u k := by
    intro k hk
    by_contra hnone
    exact absurd hzero (Nat.ne_of_gt (h.live hk (not_exists.mp hnone)).2)
  refine ⟨number_eq_zero_iff.mpr fun u => Bool.eq_false_iff.mpr ?_, hspent⟩
  intro htakes
  -- the source of the assignment that took it would refer to a live block
  obtain ⟨other, hother, hreads, hself⟩ := source_of_takes (h.knows u) htakes
  obtain ⟨v, hv⟩ := hspent other hother
  exact h.not_spends (t := u) (Or.inr hreads) hself v hv

variable [DecidableEq I]

omit [Fintype I] [Fintype H] in
/-- The thread that takes a step crashes only on `nullptr` or a deleted block. -/
theorem moves_running {ch : Choice H A} (hmoves : Moves s t ch s')
    (hsafe : (s.point t).atomic = true →
      ∃ b, s.target t = some b ∧ (s.block b).deleted = 0) : s'.point t ≠ .crashed := by
  have hgoto : ∀ {p : Point H A}, p ≠ .crashed →
      Function.update s.point t p t ≠ .crashed := by
    intro p hp
    rwa [Function.update_self]
  cases hmoves with
  | construct this ptr hp hthis hfree => exact fun hc => nomatch hp.symm.trans hc
  | moveConstruct this other hp hthis hfree hfree' => exact fun hc => nomatch hp.symm.trans hc
  | copyAssignSame this other hp hsame => exact fun hc => nomatch hp.symm.trans hc
  | destructNull this hp hfree hnull => exact fun hc => nomatch hp.symm.trans hc
  | crash hp hbad =>
      obtain ⟨b, hb, hdeleted⟩ := hsafe hp
      exact absurd hdeleted (hbad b hb)
  | _ => exact hgoto nofun

/-- **The invariant is kept** by every step that does not dereference `nullptr`. -/
theorem inv_step {ch : Choice H A} (h : Inv s) (hderef : NoNullDeref s (t, ch))
    (hstep : step s t ch = some s') : Inv s' := by
  have hmoves := step_moves hstep
  refine ⟨exclusive_step h.exclusive hmoves, knows_step h.exclusive h.knows hmoves,
    books_step h.books (h.knows t) hderef (fun _ => h.target_live) hmoves, ?_⟩
  intro u
  by_cases hu : u = t
  · subst hu
    refine moves_running hmoves ?_
    intro hatomic
    obtain ⟨b, hb⟩ := Option.ne_none_iff_exists'.mp (hderef hatomic)
    exact ⟨b, hb, h.books.deleted_eq_zero (h.target_live hb)⟩
  · obtain ⟨p, hpoint⟩ := moves_point hmoves
    rw [hpoint, Function.update_of_ne hu]
    exact h.running u

/-- What holds after every run without a null dereference. -/
theorem run_inv {as : List (I × Choice H A)}
    (h : Run ((arcs I H A).restrict NoNullDeref) as s) : Inv s := by
  refine Run.invariant (S := (arcs I H A).restrict NoNullDeref) (I := fun _ s => Inv s) ?_ ?_ h
  · rintro s ⟨blank, rfl⟩
    exact ⟨fun _ _ _ _ hmod => (nomatch hmod), fun _ => trivial, books_start blank,
      fun _ => nofun⟩
  · rintro as s a s' - hI ⟨hstep, hderef⟩
    exact inv_step hI hderef hstep

end Invariant

/-! ## Main result -/

section Main

variable [DecidableEq I] [Fintype I] [DecidableEq H] [Fintype H]

/-- What reference counting promises.

    `exact`: the count is the number of handles that refer to the block and the references
    taken, less those given back by operations that have not overwritten their handle yet.
    `settled`: between such moments it is the number of handles and references taken.
    `once`: a block is deleted at most once, and its object destroyed with it.
    `last`: a block is disposed of by one `release_ref`, which has brought its count to
    zero; then no reference to it is taken, and no handle refers to it but the one that is
    released and those whose operations have given their references back before.
    `gone`: after that, too.
    `complete`: a block that nothing refers to any more has been deleted.
    `safe`: the block that an `add_ref` or a `release_ref` is about to reach is not
    deleted. -/
structure CountsExactly (s : State I H A) : Prop where
  exact : ∀ b, b < s.nextBlock →
    (s.block b).mNumShared + s.givenBack b = s.handles b + s.taken b
  settled : ∀ b, b < s.nextBlock → (∀ u h, ¬ s.spends b u h) →
    (s.block b).mNumShared = s.handles b + s.taken b
  once : ∀ b, b < s.nextBlock → (s.block b).deleted ≤ 1
    ∧ (s.block b).destroyed = if (s.block b).mPtr.isSome then (s.block b).deleted else 0
  last : ∀ t b this after, s.point t = .disposing b this after →
    (s.block b).mNumShared = 0 ∧ (s.block b).deleted = 0 ∧ s.taken b = 0
      ∧ (∀ u this' after', s.point u = .disposing b this' after' → u = t)
      ∧ ∀ h, s.controlBlock h = some b →
        h = this ∨ ∃ u after', s.point u = .finishing b h after'
  gone : ∀ b, b < s.nextBlock → (s.block b).deleted = 1 →
    (s.block b).mNumShared = 0 ∧ s.taken b = 0
      ∧ ∀ h, s.controlBlock h = some b → ∃ u after', s.point u = .finishing b h after'
  complete : ∀ b, b < s.nextBlock → s.handles b = 0 → s.taken b = 0 →
    (s.block b).deleted = 1
  safe : ∀ t, s.point t ≠ .crashed
    ∧ ∀ b, s.target t = some b → (s.block b).deleted = 0 ∧ 0 < (s.block b).mNumShared

omit [DecidableEq I] in
/-- At zero, a block is deleted or one thread is about to delete it. -/
theorem Inv.dying_le_one (h : Inv s) {b : Nat} (hb : b < s.nextBlock) :
    s.dying b + (s.block b).deleted ≤ 1
      ∧ (0 < s.dying b + (s.block b).deleted ↔ (s.block b).mNumShared = 0) := by
  have := (h.books.balance b hb).zero
  by_cases hzero : (s.block b).mNumShared = 0
  · rw [if_pos hzero] at this
    exact ⟨by omega, iff_of_true (by omega) hzero⟩
  · rw [if_neg hzero] at this
    exact ⟨by omega, iff_of_false (by omega) hzero⟩

omit [DecidableEq I] in
/-- The thread that has brought the count of a block to zero. -/
theorem Inv.last (h : Inv s) {b : Nat} {this : H} {after : After H}
    (hp : s.point t = .disposing b this after) :
    b < s.nextBlock ∧ (s.block b).mNumShared = 0 ∧ (s.block b).deleted = 0
      ∧ ∀ u this' after', s.point u = .disposing b this' after' → u = t := by
  have hgave : (s.point t).gaveBack b = true := by
    rw [hp]
    exact decide_eq_true rfl
  have hdisposes : ∀ u this' after', s.point u = .disposing b this' after' →
      (s.point u).disposes b = true := by
    intro u this' after' hu
    rw [hu]
    exact decide_eq_true rfl
  have hlt := h.books.allocated hgave
  have hdying : 0 < s.dying b := number_pos_iff.mpr ⟨t, hdisposes t this after hp⟩
  obtain ⟨hle, hzero⟩ := h.dying_le_one hlt
  refine ⟨hlt, hzero.mp (by omega), by omega, ?_⟩
  intro u this' after' hu
  have hone : s.dying b ≤ 1 := Nat.le_of_add_right_le hle
  exact eq_of_number_le_one hone (hdisposes u this' after' hu) (hdisposes t this after hp)

end Main

/-- Two handles of one block are destroyed by two threads at once. -/
def destroyTogether : List (Bool × Choice Bool Nat) :=
  [(false, .construct false (some 7)), (true, .copyConstruct true false), (true, .next),
    (false, .destruct false), (true, .destruct true),
    (false, .next), (true, .next), (true, .next), (false, .next), (true, .next)]

end ArcPointer
