import CppPlayground.ArcPointer.Steps
import CppPlayground.Lib.Threads

/-! # `ArcPointer`: the balance of a control block

    A reference to a block is in a handle, or taken by a copy assignment that has not yet
    stored it in its handle; and, the other way round, a handle may still refer to a block
    although the operation on it has given the reference back.  `Balance` says that the
    count of a block is what these add up to, and that a block whose count is zero is
    deleted or about to be.  Each operation on a count keeps the balance, provided the
    count was not zero. -/

namespace ArcPointer

open Transition Threads

variable {I H A : Type} {s s' : State I H A} {t : I}

/-! ## What is counted -/

/-- A handle that refers to block `b`. -/
def refersTo (b : Nat) (o : Option (Handle A)) : Bool := o.bind Handle.mControlBlock = some b

/-- A reference to `b` that a copy assignment has taken. -/
def After.takes (b : Nat) : After H → Bool
  | .copyFrom _ taken => taken = b
  | _ => false

/-- A thread that has taken a reference to `b` and not stored it yet. -/
def Point.takes (b : Nat) : Point H A → Bool
  | .releasing _ after | .disposing _ _ after | .finishing _ _ after => after.takes b
  | _ => false

/-- A thread that has given a reference to `b` back, while its handle still refers to it. -/
def Point.gaveBack (b : Nat) : Point H A → Bool
  | .disposing c _ _ | .finishing c _ _ => c = b
  | _ => false

/-- A thread that has brought the count of `b` to zero and not yet deleted it. -/
def Point.disposes (b : Nat) : Point H A → Bool
  | .disposing c _ _ => c = b
  | _ => false

/-- The thread has given back the reference of handle `h` to `b`. -/
def State.spends (s : State I H A) (b : Nat) (u : I) (h : H) : Prop :=
  ∃ after, s.point u = .disposing b h after ∨ s.point u = .finishing b h after

section Counts

variable [Fintype H]

/-- The number of handles that refer to `b`. -/
def State.handles (s : State I H A) (b : Nat) : Nat := number (refersTo b) s.handle

variable [Fintype I]

/-- The number of references to `b` that are taken and not yet stored in a handle. -/
def State.taken (s : State I H A) (b : Nat) : Nat := number (Point.takes b) s.point

/-- The number of references to `b` that are given back and still in a handle. -/
def State.givenBack (s : State I H A) (b : Nat) : Nat := number (Point.gaveBack b) s.point

/-- The number of threads that are about to delete `b`. -/
def State.dying (s : State I H A) (b : Nat) : Nat := number (Point.disposes b) s.point

end Counts

theorem refersTo_eq_true {b : Nat} {o : Option (Handle A)} :
    refersTo b o = true ↔ o.bind Handle.mControlBlock = some b := decide_eq_true_iff

theorem gaveBack_eq_true {b : Nat} {u : I} :
    (s.point u).gaveBack b = true ↔ ∃ h, s.spends b u h := by
  constructor
  · intro hgave
    cases hp : s.point u with
    | disposing c h after =>
        rw [hp] at hgave
        obtain rfl : c = b := of_decide_eq_true hgave
        exact ⟨h, after, Or.inl hp⟩
    | finishing c h after =>
        rw [hp] at hgave
        obtain rfl : c = b := of_decide_eq_true hgave
        exact ⟨h, after, Or.inr hp⟩
    | _ =>
        rw [hp] at hgave
        exact nomatch hgave
  · rintro ⟨h, after, hp | hp⟩ <;> rw [hp] <;> exact decide_eq_true rfl

/-! ## The balance of a block -/

/-- The books of block `k`, for the numbers above. -/
structure Balance (k : Block A) (handles taken givenBack dying : Nat) : Prop where
  exact : k.mNumShared + givenBack = handles + taken
  zero : dying + k.deleted = if k.mNumShared = 0 then 1 else 0
  once : k.destroyed = if k.mPtr.isSome then k.deleted else 0

section Balance

variable {k : Block A} {n m g d : Nat}

theorem Balance.construct (ptr : Option A) : Balance (.construct ptr) 1 0 0 0 where
  exact := rfl
  zero := rfl
  once := by cases ptr <;> rfl

/-- `++m_num_shared` for a handle. -/
theorem Balance.incremented (h : Balance k n m g d) (hpos : 0 < k.mNumShared) :
    Balance k.incremented (n + 1) m g d where
  exact := by
    have := h.exact
    show k.mNumShared + 1 + g = n + 1 + m
    omega
  zero := by
    have := h.zero
    rw [if_neg (Nat.ne_of_gt hpos)] at this
    exact this
  once := h.once

/-- `++m_num_shared` for a copy assignment. -/
theorem Balance.incremented_taken (h : Balance k n m g d) (hpos : 0 < k.mNumShared) :
    Balance k.incremented n (m + 1) g d where
  exact := by
    have := h.exact
    show k.mNumShared + 1 + g = n + (m + 1)
    omega
  zero := (h.incremented hpos).zero
  once := h.once

/-- `--m_num_shared`, not to zero. -/
theorem Balance.decremented (h : Balance k n m g d) (hpos : k.decremented.mNumShared ≠ 0) :
    Balance k.decremented n m (g + 1) d where
  exact := by
    have := h.exact
    have hne : k.mNumShared - 1 ≠ 0 := hpos
    show k.mNumShared - 1 + (g + 1) = n + m
    omega
  zero := by
    have hne : k.mNumShared - 1 ≠ 0 := hpos
    have := h.zero
    rw [if_neg (by omega)] at this
    rw [if_neg hpos]
    exact this
  once := h.once

/-- `--m_num_shared`, to zero. -/
theorem Balance.decremented_last (h : Balance k n m g d) (hpos : 0 < k.mNumShared)
    (hzero : k.decremented.mNumShared = 0) : Balance k.decremented n m (g + 1) (d + 1) where
  exact := by
    have := h.exact
    show k.mNumShared - 1 + (g + 1) = n + m
    omega
  zero := by
    have := h.zero
    rw [if_neg (Nat.ne_of_gt hpos)] at this
    rw [if_pos hzero]
    show d + 1 + k.deleted = 1
    omega
  once := h.once

/-- `destroy_object(); delete this;` -/
theorem Balance.disposed (h : Balance k n m g (d + 1)) : Balance k.disposed n m g d where
  exact := h.exact
  zero := by
    have := h.zero
    show d + (k.deleted + 1) = if k.mNumShared = 0 then 1 else 0
    omega
  once := by
    have := h.once
    show (if k.mPtr.isSome then k.destroyed + 1 else k.destroyed)
      = if k.mPtr.isSome then k.deleted + 1 else 0
    by_cases hptr : k.mPtr.isSome = true
    · rw [if_pos hptr] at this ⊢
      rw [if_pos hptr, this]
    · rw [if_neg hptr] at this ⊢
      rw [if_neg hptr, this]

/-- References move between the three places. -/
theorem Balance.moved (h : Balance k n m g d) {n' m' g' : Nat}
    (hsum : n' + m' + g = n + m + g') : Balance k n' m' g' d where
  exact := by
    have := h.exact
    omega
  zero := h.zero
  once := h.once

end Balance

/-! ## Handles that change -/

section Handles

variable [DecidableEq H] [Fintype H] {handle : H → Option (Handle A)} {this other : H} {b : Nat}

/-- Moving a block from one handle to another. -/
theorem number_refersTo_move (handle : H → Option (Handle A)) (hne : other ≠ this)
    {o : Option (Handle A)} (ho : refersTo b o = false) :
    number (refersTo b) (Function.update (Function.update handle this (handle other)) other o)
      + (refersTo b (handle this)).toNat = number (refersTo b) handle := by
  have hthis := number_update (refersTo b) handle this (handle other)
  have hother := number_update (refersTo b)
    (Function.update handle this (handle other)) other o
  rw [ho, Function.update_of_ne hne] at hother
  simp only [Bool.toNat_false] at hother
  omega

/-- What an operation does to its handles after `release_ref`: the reference of `this` is
    replaced by the one taken. -/
theorem number_refersTo_finish (b : Nat) {after : After H} (hknows : after.Knows handle this) :
    number (refersTo b) (finish handle this after) + (refersTo b (handle this)).toNat
      = number (refersTo b) handle + (after.takes b).toNat := by
  cases after with
  | copyFrom other taken =>
      have hsource : refersTo b (handle other) = (After.copyFrom other taken).takes b := by
        show decide (_ = some b) = decide (taken = b)
        rw [show (handle other).bind Handle.mControlBlock = some taken from hknows.2]
        exact decide_eq_decide.mpr Option.some_inj
      rw [← hsource]
      exact number_update (refersTo b) handle this (handle other)
  | moveFrom other =>
      have hreset : refersTo b ((handle other).map Handle.withoutBlock) = false := by
        cases handle other <;> rfl
      show number _ (Function.update _ other _) + _ = _ + 0
      by_cases hself : other = this
      · -- a self-move only resets `m_control_block`
        subst hself
        have := number_update (refersTo b) handle other ((handle other).map .withoutBlock)
        rw [hreset] at this
        rw [Function.update_eq_self]
        exact this
      · exact number_refersTo_move handle hself hreset
  | destroy => exact number_update (refersTo b) handle this none

end Handles

/-! ## The books of all blocks -/

section Books

variable [Fintype I] [Fintype H]

/-- The block is allocated and its count is not zero. -/
def State.live (s : State I H A) (b : Nat) : Prop :=
  b < s.nextBlock ∧ 0 < (s.block b).mNumShared

/-- All blocks are balanced, and nothing refers to a block that is not allocated. -/
structure Books (s : State I H A) : Prop where
  fresh : ∀ b, s.nextBlock ≤ b → s.handles b = 0 ∧ s.taken b = 0 ∧ s.givenBack b = 0
  balance : ∀ b, b < s.nextBlock →
    Balance (s.block b) (s.handles b) (s.taken b) (s.givenBack b) (s.dying b)

omit [Fintype H] in
theorem dying_eq_zero {b : Nat} (h : s.givenBack b = 0) : s.dying b = 0 := by
  rw [State.givenBack, number_eq_zero_iff] at h
  rw [State.dying, number_eq_zero_iff]
  intro u
  have hu := h u
  cases hp : s.point u with
  | disposing c this after =>
      rw [hp] at hu
      exact hu
  | _ => rfl

theorem Books.deleted_eq_zero (h : Books s) {b : Nat} (hlive : s.live b) :
    (s.block b).deleted = 0 := by
  have := (h.balance b hlive.1).zero
  rw [if_neg (Nat.ne_of_gt hlive.2)] at this
  omega

/-- A block that a reference was given back to is allocated. -/
theorem Books.allocated (h : Books s) {b : Nat} (hgave : (s.point t).gaveBack b = true) :
    b < s.nextBlock := by
  by_contra hge
  obtain ⟨-, -, hg⟩ := h.fresh b (Nat.le_of_not_lt hge)
  have := number_eq_zero_iff.mp hg t
  rw [hgave] at this
  exact nomatch this

theorem books_start (blank : Block A) : Books (start blank : State I H A) where
  fresh _ _ := ⟨total_eq_zero fun _ => rfl, total_eq_zero fun _ => rfl,
    total_eq_zero fun _ => rfl⟩
  balance b hb := absurd hb (Nat.not_lt_zero b)

/-- A step that keeps the count of every block. -/
theorem Books.keep (h : Books s) (hblock : s'.block = s.block)
    (hnext : s'.nextBlock = s.nextBlock) (hdying : ∀ c, s'.dying c = s.dying c)
    (hsum : ∀ c, s'.handles c + s'.taken c + s.givenBack c
      = s.handles c + s.taken c + s'.givenBack c)
    (hle : ∀ c, s'.givenBack c ≤ s.givenBack c) : Books s' where
  fresh c hc := by
    rw [hnext] at hc
    obtain ⟨hn, hm, hg⟩ := h.fresh c hc
    have := hsum c
    have := hle c
    omega
  balance c hc := by
    rw [hnext] at hc
    rw [hblock, hdying c]
    exact (h.balance c hc).moved (hsum c)

/-- A thread between two members changes handles. -/
theorem Books.rehandle (h : Books s) {handle : H → Option (Handle A)}
    (hsame : ∀ c, number (refersTo c) handle = number (refersTo c) s.handle) :
    Books { s with handle := handle } := by
  refine h.keep rfl rfl (fun _ => rfl) ?_ (fun _ => Nat.le_refl _)
  intro c
  show number (refersTo c) handle + _ + _ = _
  rw [hsame c]
  rfl

variable [DecidableEq I]

/-- A thread starts a member. -/
theorem Books.goto (h : Books s) {p : Point H A}
    (hold : ∀ c, (s.point t).takes c = false ∧ (s.point t).gaveBack c = false
      ∧ (s.point t).disposes c = false)
    (hnew : ∀ c, p.takes c = false ∧ p.gaveBack c = false ∧ p.disposes c = false) :
    Books (s.goto t p) := by
  have hcounts : ∀ c, (s.goto t p).taken c = s.taken c
      ∧ (s.goto t p).givenBack c = s.givenBack c ∧ (s.goto t p).dying c = s.dying c := by
    intro c
    obtain ⟨htakes, hgave, hdisposes⟩ := hold c
    obtain ⟨htakes', hgave', hdisposes'⟩ := hnew c
    exact ⟨number_update_same (htakes.trans htakes'.symm),
      number_update_same (hgave.trans hgave'.symm),
      number_update_same (hdisposes.trans hdisposes'.symm)⟩
  refine h.keep rfl rfl (fun c => (hcounts c).2.2) ?_ ?_
  · intro c
    rw [(hcounts c).1, (hcounts c).2.1]
    rfl
  · intro c
    exact Nat.le_of_eq (hcounts c).2.1

/-- A step on the count of block `b`. -/
theorem Books.set (h : Books s) {b : Nat} {k : Block A} {p : Point H A}
    {handle : H → Option (Handle A)} (hb : b < s.nextBlock)
    (hhandle : ∀ c, c ≠ b → number (refersTo c) handle = number (refersTo c) s.handle)
    (hpoint : ∀ c, c ≠ b → (s.point t).takes c = p.takes c
      ∧ (s.point t).gaveBack c = p.gaveBack c ∧ (s.point t).disposes c = p.disposes c)
    (hk : Balance k (number (refersTo b) handle)
      (number (Point.takes b) (Function.update s.point t p))
      (number (Point.gaveBack b) (Function.update s.point t p))
      (number (Point.disposes b) (Function.update s.point t p))) :
    Books { (s.goto t p).setBlock b k with handle := handle } where
  fresh c hc := by
    have hc : s.nextBlock ≤ c := hc
    have hne : c ≠ b := by omega
    obtain ⟨htakes, hgave, hdisposes⟩ := hpoint c hne
    obtain ⟨hn, hm, hg⟩ := h.fresh c hc
    exact ⟨(hhandle c hne).trans hn, (number_update_same htakes).trans hm,
      (number_update_same hgave).trans hg⟩
  balance c hc := by
    show Balance (Function.update s.block b k c) (number (refersTo c) handle)
      (number (Point.takes c) (Function.update s.point t p))
      (number (Point.gaveBack c) (Function.update s.point t p))
      (number (Point.disposes c) (Function.update s.point t p))
    by_cases hcb : c = b
    · subst hcb
      rw [Function.update_self]
      exact hk
    · obtain ⟨htakes, hgave, hdisposes⟩ := hpoint c hcb
      rw [Function.update_of_ne hcb, hhandle c hcb, number_update_same htakes,
        number_update_same hgave, number_update_same hdisposes]
      exact h.balance c hc

/-- `add_ref` in a copy assignment.  The new reference is not in a handle yet, so it counts
    as taken. -/
theorem Books.addAssign (h : Books s) {this other : H} {b : Nat}
    (hp : s.point t = .addingAssign this other) (hlive : s.live b) :
    Books ((s.goto t (.releasing this (.copyFrom other b))).setBlock b
      (s.block b).incremented) := by
  refine h.set hlive.1 (fun c _ => rfl) ?_ ?_
  · intro c hc
    rw [hp]
    exact ⟨(decide_eq_false (Ne.symm hc)).symm, rfl, rfl⟩
  · have hnew : (Point.releasing this (.copyFrom other b) : Point H A).takes b = true :=
      decide_eq_true rfl
    rw [number_update_enter (by rw [hp]; rfl) hnew,
      number_update_same (by rw [hp]; rfl), number_update_same (by rw [hp]; rfl)]
    exact (h.balance b hlive.1).incremented_taken hlive.2

/-- `release_ref`, not to zero.  The handle keeps its pointer for now, so the reference
    counts as given back. -/
theorem Books.release (h : Books s) {this : H} {after : After H} {b : Nat}
    (hp : s.point t = .releasing this after) (hlive : s.live b)
    (hpos : (s.block b).decremented.mNumShared ≠ 0) :
    Books ((s.goto t (.finishing b this after)).setBlock b (s.block b).decremented) := by
  refine h.set hlive.1 (fun c _ => rfl) ?_ ?_
  · intro c hc
    rw [hp]
    exact ⟨rfl, (decide_eq_false (Ne.symm hc)).symm, rfl⟩
  · have hnew : (Point.finishing b this after : Point H A).gaveBack b = true :=
      decide_eq_true rfl
    rw [number_update_same (by rw [hp]; rfl), number_update_enter (by rw [hp]; rfl) hnew,
      number_update_same (by rw [hp]; rfl)]
    exact (h.balance b hlive.1).decremented hpos

/-- `release_ref`, to zero. -/
theorem Books.releaseLast (h : Books s) {this : H} {after : After H} {b : Nat}
    (hp : s.point t = .releasing this after) (hlive : s.live b)
    (hzero : (s.block b).decremented.mNumShared = 0) :
    Books ((s.goto t (.disposing b this after)).setBlock b (s.block b).decremented) := by
  refine h.set hlive.1 (fun c _ => rfl) ?_ ?_
  · intro c hc
    rw [hp]
    exact ⟨rfl, (decide_eq_false (Ne.symm hc)).symm, (decide_eq_false (Ne.symm hc)).symm⟩
  · have hgave : (Point.disposing b this after : Point H A).gaveBack b = true :=
      decide_eq_true rfl
    have hdisposes : (Point.disposing b this after : Point H A).disposes b = true :=
      decide_eq_true rfl
    rw [number_update_same (by rw [hp]; rfl), number_update_enter (by rw [hp]; rfl) hgave,
      number_update_enter (by rw [hp]; rfl) hdisposes]
    exact (h.balance b hlive.1).decremented_last hlive.2 hzero

/-- The thread that has brought the count to zero deletes the block. -/
theorem Books.dispose (h : Books s) {this : H} {after : After H} {b : Nat}
    (hp : s.point t = .disposing b this after) :
    Books ((s.goto t (.finishing b this after)).setBlock b (s.block b).disposed) := by
  have hlt : b < s.nextBlock :=
    h.allocated (t := t) (by rw [hp]; exact decide_eq_true rfl)
  refine h.set hlt (fun c _ => rfl) ?_ ?_
  · intro c hc
    rw [hp]
    exact ⟨rfl, rfl, decide_eq_false (Ne.symm hc)⟩
  · have hdisposes : (s.point t).disposes b = true := by
      rw [hp]
      exact decide_eq_true rfl
    rw [number_update_same (by rw [hp]; rfl), number_update_same (by rw [hp]; rfl)]
    have hbal := h.balance b hlt
    rw [State.dying, ← number_update_leave (p := .finishing b this after) hdisposes rfl]
      at hbal
    exact hbal.disposed

variable [DecidableEq H]

omit [DecidableEq I] in
/-- A new block, and the handle that refers to it. -/
theorem Books.allocate (h : Books s) {this : H} (hthis : s.handle this = none)
    (ptr : Option A) :
    Books { s with
      handle := Function.update s.handle this (some ⟨some s.nextBlock, ptr⟩)
      block := Function.update s.block s.nextBlock (.construct ptr)
      nextBlock := s.nextBlock + 1 } := by
  have hothers : ∀ c, c ≠ s.nextBlock →
      number (refersTo c) (Function.update s.handle this (some ⟨some s.nextBlock, ptr⟩))
        = number (refersTo c) s.handle := by
    intro c hc
    refine number_update_same ?_
    rw [hthis]
    exact (decide_eq_false fun heq => hc (Option.some.inj heq).symm).symm
  constructor
  · intro c hc
    have hc : s.nextBlock + 1 ≤ c := hc
    obtain ⟨hn, hm, hg⟩ := h.fresh c (Nat.le_of_succ_le hc)
    exact ⟨(hothers c (Nat.ne_of_gt hc)).trans hn, hm, hg⟩
  · intro c hc
    have hc : c < s.nextBlock + 1 := hc
    show Balance (Function.update s.block s.nextBlock _ c)
      (number (refersTo c) (Function.update s.handle this _)) (s.taken c) (s.givenBack c)
      (s.dying c)
    by_cases hnew : c = s.nextBlock
    · subst hnew
      obtain ⟨hn, hm, hg⟩ := h.fresh _ (Nat.le_refl _)
      have hfirst : number (refersTo s.nextBlock)
          (Function.update s.handle this (some ⟨some s.nextBlock, ptr⟩))
            = number (refersTo s.nextBlock) s.handle + 1 :=
        number_update_enter (by rw [hthis]; rfl) (decide_eq_true rfl)
      rw [Function.update_self, hfirst, hm, hg, dying_eq_zero hg,
        show number (refersTo s.nextBlock) s.handle = 0 from hn]
      exact Balance.construct ptr
    · rw [Function.update_of_ne hnew, hothers c hnew]
      exact h.balance c (by omega)

omit [DecidableEq I] in
/-- A move into an object under construction. -/
theorem Books.moveConstruct (h : Books s) {this other : H} (hthis : s.handle this = none) :
    Books { s with
      handle := Function.update (Function.update s.handle this (s.handle other)) other
        (some .null) } := by
  refine h.rehandle ?_
  intro c
  by_cases hself : other = this
  · -- a move from its own storage, which refers to no block
    subst hself
    rw [Function.update_eq_self]
    exact number_update_same (by rw [hthis]; rfl)
  · have hnull : refersTo c (some Handle.null : Option (Handle A)) = false := rfl
    have := number_refersTo_move s.handle hself hnull
    rw [hthis] at this
    exact this

/-- `add_ref` in a copy constructor, whose object then refers to the block. -/
theorem Books.addConstruct (h : Books s) {this other : H} {members : Handle A} {b : Nat}
    (hp : s.point t = .addingConstruct this other members) (hthis : s.handle this = none)
    (hb : members.mControlBlock = some b) (hlive : s.live b) :
    Books { (s.goto t .idle).setBlock b (s.block b).incremented with
      handle := Function.update s.handle this (some members) } := by
  refine h.set hlive.1 (fun c hc => number_update_same ?_)
    (fun c _ => by rw [hp]; exact ⟨rfl, rfl, rfl⟩) ?_
  · rw [hthis]
    exact (decide_eq_false fun heq => hc (Option.some.inj (heq.symm.trans hb))).symm
  · have hnew : refersTo b (some members) = true := decide_eq_true hb
    rw [number_update_enter (by rw [hthis]; rfl) hnew,
      number_update_same (by rw [hp]; rfl), number_update_same (by rw [hp]; rfl),
      number_update_same (by rw [hp]; rfl)]
    exact (h.balance b hlive.1).incremented hlive.2

/-- What was given back leaves the handle, and what was taken takes its place. -/
theorem Books.finish (h : Books s) {this : H} {after : After H} {b : Nat}
    (hp : s.point t = .finishing b this after)
    (hthis : (s.handle this).bind Handle.mControlBlock = some b)
    (hknows : after.Knows s.handle this) :
    Books { s.goto t .idle with handle := finish s.handle this after } := by
  refine h.keep rfl rfl ?_ ?_ ?_
  · intro c
    exact number_update_same (by rw [hp]; rfl)
  · intro c
    have hhandles := number_refersTo_finish c hknows
    have htaken := number_update (Point.takes c) s.point t .idle
    have hgave := number_update (Point.gaveBack c) s.point t .idle
    rw [hp] at htaken hgave
    have hrefers : refersTo c (s.handle this) = decide (b = c) := by
      show decide (_ = some c) = decide (b = c)
      rw [hthis]
      exact decide_eq_decide.mpr Option.some_inj
    rw [hrefers] at hhandles
    have hhandles : number (refersTo c) (ArcPointer.finish s.handle this after)
      + (decide (b = c)).toNat = s.handles c + (after.takes c).toNat := hhandles
    have htaken : number (Point.takes c) (Function.update s.point t .idle)
      + (after.takes c).toNat = s.taken c := htaken
    have hgave : number (Point.gaveBack c) (Function.update s.point t .idle)
      + (decide (b = c)).toNat = s.givenBack c := hgave
    show number (refersTo c) (ArcPointer.finish s.handle this after)
      + number (Point.takes c) (Function.update s.point t .idle) + s.givenBack c
        = s.handles c + s.taken c
          + number (Point.gaveBack c) (Function.update s.point t .idle)
    omega
  · intro c
    have := number_update (Point.gaveBack c) s.point t .idle
    exact Nat.le_of_add_right_le (Nat.le_of_eq this)

/-- **The books stay balanced**, step by step, where no operation dereferences `nullptr`
    or reaches a block whose count is zero. -/
theorem books_step {ch : Choice H A} (h : Books s) (hknows : (s.point t).Knows s.handle)
    (hderef : NoNullDeref s (t, ch)) (halive : ∀ b, s.target t = some b → s.live b)
    (hmoves : Moves s t ch s') : Books s' := by
  cases hmoves with
  | construct this ptr hp hthis hfree => exact h.allocate hthis ptr
  | copyConstruct this other members hp hthis hfree hother hread =>
      exact h.goto (fun c => by rw [hp]; exact ⟨rfl, rfl, rfl⟩) (fun c => ⟨rfl, rfl, rfl⟩)
  | moveConstruct this other hp hthis hfree hfree' => exact h.moveConstruct hthis
  | copyAssignSame this other hp hsame => exact h
  | copyAssign this other hp hfree hread hne =>
      exact h.goto (fun c => by rw [hp]; exact ⟨rfl, rfl, rfl⟩) (fun c => ⟨rfl, rfl, rfl⟩)
  | moveAssign this other hp hfree hfree' =>
      exact h.goto (fun c => by rw [hp]; exact ⟨rfl, rfl, rfl⟩) (fun c => ⟨rfl, rfl, rfl⟩)
  | destructNull this hp hfree hnull =>
      refine h.rehandle fun c => number_update_same ?_
      show decide (s.controlBlock this = some c) = false
      rw [hnull]
      rfl
  | destruct this hp hfree =>
      exact h.goto (fun c => by rw [hp]; exact ⟨rfl, rfl, rfl⟩) (fun c => ⟨rfl, rfl, rfl⟩)
  | addConstruct this other members b hp hb =>
      rw [hp] at hknows
      exact h.addConstruct hp hknows.1 hb (halive b (by rw [State.target, hp]; exact hb))
  | addAssign this other b hp hb =>
      exact h.addAssign hp (halive b (by rw [State.target, hp]; exact hb))
  | release this after b hp hb hpos =>
      exact h.release hp (halive b (by rw [State.target, hp]; exact hb)) hpos
  | releaseLast this after b hp hb hzero =>
      exact h.releaseLast hp (halive b (by rw [State.target, hp]; exact hb)) hzero
  | crash hp hbad =>
      -- the block it reaches would have to be deleted, and a live one is not
      obtain ⟨b, hb⟩ := Option.ne_none_iff_exists'.mp (hderef hp)
      exact absurd (h.deleted_eq_zero (halive b hb)) (hbad b hb)
  | dispose b this after hp => exact h.dispose hp
  | finish b this after hp =>
      rw [hp] at hknows
      exact h.finish hp hknows.1 hknows.2

end Books

end ArcPointer
