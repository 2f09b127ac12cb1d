import CppPlayground.FixedCapacityVector.Survival

/-! # `FixedCapacityVector`: the `noexcept` clauses

    The clauses combine type traits with comparisons of the two capacities.  That they are
    sound rests on `m_size <= capacity_` for every vector a program can reach, vectors that
    a throwing move has left with gaps included.  Nothing can be said of the elements of
    those, so the members are gone through with `wlp`, for the sizes alone. -/

namespace FixedCapacityVector

open Program Storage Transition

variable {T ι : Type}

/-! ## The clauses -/

/-- The traits of `T` that the clauses ask for. -/
structure Traits where
  isNothrowCopyConstructible : Bool
  isNothrowMoveConstructible : Bool
  isNothrowDestructible : Bool

/-- A constructor throws only if its trait is false. -/
def Traits.Honest (t : Traits) (throws : Ctor → Nat → Bool) : Prop :=
  (t.isNothrowCopyConstructible = true → ∀ i, throws .copy i = false)
    ∧ (t.isNothrowMoveConstructible = true → ∀ i, throws .move i = false)

/-- What a clause says about the capacities `capacity_value` and `other_capacity`. -/
def capacityClause (c : ι → Nat) : Op ι T → Bool
  | .copyConstruct i j | .moveConstruct i j | .copyAssign i j =>
      if c j = c i then true else decide (c j ≤ c i)
  | .moveAssign i j => if c j = c i then true else decide (c j < c i)
  | _ => true

/-- What a clause says about `T`; an operation that is neither a constructor nor an
    assignment counts as one without a clause, as does the initializer-list constructor. -/
def traitClause (t : Traits) (c : ι → Nat) : Op ι T → Bool
  | .defaultConstruct _ => true
  | .copyConstruct _ _ | .copyAssign _ _ => t.isNothrowCopyConstructible
  | .moveConstruct i j =>
      if c j = c i then t.isNothrowMoveConstructible && t.isNothrowDestructible
      else t.isNothrowMoveConstructible
  | .moveAssign _ _ => t.isNothrowMoveConstructible
  | _ => false

/-- The `noexcept` clause of the member that the operation calls. -/
def noexceptClause (t : Traits) (c : ι → Nat) (op : Op ι T) : Bool :=
  capacityClause c op && traitClause t c op

/-- The run-time size check is left out: the capacities agree, or the check stands under
    `if constexpr (other_capacity > capacity_value)`. -/
def checkLeftOut (c : ι → Nat) : Op ι T → Bool
  | .copyConstruct i j | .moveConstruct i j => decide (c j = c i)
  | .copyAssign i j | .moveAssign i j => decide (c j = c i) || !decide (c i < c j)
  | _ => false

/-- `*this` and `other`. -/
def Op.operands : Op ι T → Option (ι × ι)
  | .copyConstruct i j | .moveConstruct i j | .copyAssign i j | .moveAssign i j => some (i, j)
  | _ => none

/-! ## Sizes -/

variable {c d n : Nat} {E : Element T} {v : Vec T} {s : Vec T × Vec T} {k : Ctor}

/-- An exception of a constructor of kind `k`. -/
def Throws (E : Element T) (k : Ctor) (e : Exn) : Prop := e = .element ∧ ∃ i, E.throws k i = true

/-- However the member stops, the vector is no larger than its capacity. -/
def StaysWithin (c : Nat) {α : Type} (p : Prog (Vec T) Exn α) (v : Vec T) : Prop :=
  wlp p (fun _ v' => v'.mSize ≤ c) (fun _ v' => v'.mSize ≤ c) (fun v' => v'.mSize ≤ c) v

/-- Both vectors are no larger than their capacities. -/
def Within (c d : Nat) (s : Vec T × Vec T) : Prop := s.1.mSize ≤ c ∧ s.2.mSize ≤ d

/-- What a member with `o` as `other` may throw: it is for the size of `o` or because of a
    constructor of kind `k`. -/
def MemberThrows (c : Nat) (E : Element T) (k : Ctor) (o : Vec T) (e : Exn) : Prop :=
  (e = .lengthError ∧ c < o.mSize) ∨ Throws E k e

/-- However the member stops, both are no larger than their capacities, and it throws
    nothing else. -/
def StaysWithinBoth (c d : Nat) (E : Element T) (k : Ctor) (p : Prog (Vec T × Vec T) Exn Unit)
    (s : Vec T × Vec T) : Prop :=
  wlp p (fun _ => Within c d) (fun e s' => Within c d s' ∧ MemberThrows c E k s.2 e) (Within c d) s

theorem wlp_onBuffer {α : Type} {p : Prog (Slots T) Exn α} (hp : NeverThrows p)
    {Q : α → Vec T → Prop} {F : Exn → Vec T → Prop} {U : Vec T → Prop}
    (hQ : ∀ a b, Q a { v with mBuffer := b }) (hU : ∀ b, U { v with mBuffer := b }) :
    wlp (onBuffer p) Q F U v := by
  rw [onBuffer, wlp_zoom]
  exact hp.wlp hQ hU

/-- A placement new that returns has found a place below the capacity. -/
theorem wlp_newElement {i : Nat} {x : T} {Q : Unit → Vec T → Prop} {F : Exn → Vec T → Prop}
    {U : Vec T → Prop} (hQ : ∀ b, i < c → Q () { v with mBuffer := b })
    (hF : ∀ e, Throws E k e → F e v) (hU : U v) : wlp (newElement c E k i x) Q F U v := by
  rw [newElement, onBuffer, wlp_zoom]
  refine wlp_constructAt (fun hi _ => hQ _ hi) ?_ hU
  intro e he
  by_cases hth : E.throws k i = true
  · rw [if_pos hth] at he
    exact hF e ⟨(Option.some.inj he).symm, i, hth⟩
  · rw [if_neg hth] at he
    cases he

theorem staysWithin_pure {α : Type} (h : v.mSize ≤ c) (a : α) : StaysWithin c (pure a) v :=
  (wlp_pure a).mpr h

theorem StaysWithin.bind {α β : Type} {p : Prog (Vec T) Exn α} {f : α → Prog (Vec T) Exn β}
    (hp : StaysWithin c p v) (hf : ∀ a v', v'.mSize ≤ c → StaysWithin c (f a) v') :
    StaysWithin c (p >>= f) v := by
  rw [StaysWithin, wlp_bind]
  exact wlp_mono hp hf (fun _ _ h => h) (fun _ h => h)

/-- The members that start with a test and throw or go on. -/
theorem staysWithin_guard {α : Type} {p : Prog (Vec T) Exn α} {test : Vec T → Bool} {e : Exn}
    (h : v.mSize ≤ c) (hp : StaysWithin c p v) :
    StaysWithin c (do if ← gets test then throwing e else p) v := by
  rw [StaysWithin, wlp_bind, wlp_gets, wlp_ite, wlp_throwing]
  exact ⟨fun _ => h, fun _ => hp⟩

theorem staysWithin_ends {α : Type} {p : Prog (Vec T) Exn α} (hp : StaysWithin c p v) :
    StaysWithin c (ends p) v := hp.bind fun _ _ h => h

theorem staysWithin_append (h : v.mSize ≤ c) (x : T) :
    StaysWithin c (appendElement c E k x) v := by
  rw [StaysWithin, appendElement, wlp_bind, wlp_gets, wlp_bind]
  exact wlp_newElement (fun _ hlt => hlt) (fun _ _ => h) h

theorem staysWithin_emplaceBack (h : v.mSize ≤ c) (x : T) :
    StaysWithin c (emplaceBack c E x) v :=
  staysWithin_guard h ((staysWithin_append h x).bind fun _ _ h' => h')

theorem staysWithin_popBack (h : v.mSize ≤ c) : StaysWithin c popBack v := by
  refine staysWithin_guard h ?_
  have hless : v.mSize - 1 ≤ c := Nat.le_trans (Nat.sub_le _ _) h
  rw [StaysWithin, decSize, wlp_bind, wlp_modify, wlp_bind, wlp_gets]
  exact wlp_onBuffer (neverThrows_destroyAt _) (fun _ _ => hless) (fun _ => hless)

theorem staysWithin_initLoop (init : List T) (h : v.mSize ≤ c) :
    StaysWithin c (initLoop c E init) v := by
  induction init generalizing v with
  | nil => exact h
  | cons item rest ih => exact (staysWithin_append h item).bind fun _ _ h' => ih h'

theorem staysWithin_resize (h : v.mSize ≤ c) (newSize : Nat) :
    StaysWithin c (resize c E newSize) v := by
  rw [StaysWithin, resize, wlp_bind, wlp_gets, wlp_ite]
  refine ⟨fun _ => h, fun _ => ?_⟩
  have hshrink : StaysWithin c (whileLoop (fun v => newSize < v.mSize) popBack (v.mSize + 1)) v :=
    wlp_whileLoop (fun _ _ h' => staysWithin_popBack h') _ _ h
  refine hshrink.bind fun _ v' hv' => ?_
  have hround : ∀ v : Vec T, v.mSize ≤ c →
      StaysWithin c (do let _ ← emplaceBack c E E.dflt) v :=
    fun v h' => (staysWithin_emplaceBack h' E.dflt).bind fun _ _ h'' => h''
  exact wlp_whileLoop (fun v _ h' => hround v h') _ _ hv'

/-- What destroys all elements leaves a size of `0`, if it returns. -/
theorem wlp_destroyElements (h : v.mSize ≤ c) {F : Exn → Vec T → Prop} :
    wlp destroyElements (fun _ v' => v'.mSize = 0) F (fun v' => v'.mSize ≤ c) v := by
  rw [destroyElements, wlp_bind, wlp_gets, wlp_bind]
  exact wlp_onBuffer (neverThrows_destroyRange _) (fun _ _ => rfl) (fun _ => h)

theorem wlp_clear (h : v.mSize ≤ c) {F : Exn → Vec T → Prop} :
    wlp clear (fun _ v' => v'.mSize = 0) F (fun v' => v'.mSize ≤ c) v := by
  rw [clear, wlp_bind, wlp_gets, wlp_ite]
  exact ⟨fun hempty => beq_iff_eq.mp hempty, fun _ => wlp_destroyElements h⟩

theorem staysWithin_clear (h : v.mSize ≤ c) : StaysWithin c clear v :=
  wlp_mono (wlp_clear (F := fun _ v' => v'.mSize ≤ c) h)
    (fun _ _ hzero => Nat.le_trans (Nat.le_of_eq hzero) (Nat.zero_le c)) (fun _ _ h' => h')
    (fun _ h' => h')

/-! ## Sizes of two vectors -/

theorem wlp_onThis {α : Type} {p : Prog (Vec T) Exn α} {Q : α → Vec T × Vec T → Prop}
    {F : Exn → Vec T × Vec T → Prop} {U : Vec T × Vec T → Prop} :
    wlp (onThis p) Q F U s
      ↔ wlp p (fun a v => Q a (v, s.2)) (fun e v => F e (v, s.2)) (fun v => U (v, s.2)) s.1 :=
  Iff.rfl

theorem wlp_onOther {α : Type} {p : Prog (Vec T) Exn α} {Q : α → Vec T × Vec T → Prop}
    {F : Exn → Vec T × Vec T → Prop} {U : Vec T × Vec T → Prop} :
    wlp (onOther p) Q F U s
      ↔ wlp p (fun a v => Q a (s.1, v)) (fun e v => F e (s.1, v)) (fun v => U (s.1, v)) s.2 :=
  Iff.rfl

/-- A round of either loop: the sizes before the `i`-th element. -/
def AtRound (c d i : Nat) (s : Vec T × Vec T) : Prop := s.1.mSize = i ∧ i ≤ c ∧ s.2.mSize ≤ d

theorem AtRound.within {i : Nat} (h : AtRound c d i s) : Within c d s :=
  ⟨Nat.le_trans (Nat.le_of_eq h.1) h.2.1, h.2.2⟩

/-- What a loop may throw. -/
def LoopThrows (c d : Nat) (E : Element T) (k : Ctor) (e : Exn) (s : Vec T × Vec T) : Prop :=
  Within c d s ∧ Throws E k e

theorem wlp_copyLoop (h : AtRound c d 0 s) :
    wlp (copyLoop c E) (fun _ => Within c d) (LoopThrows c d E .copy) (Within c d) s := by
  rw [copyLoop, wlp_bind, wlp_onOther, wlp_gets]
  refine wlp_mono (wlp_forRange (AtRound c d) ?_ h) (fun _ _ h' => h'.within) (fun _ _ h' => h')
    (fun _ h' => h')
  intro i s hi hs
  rw [wlp_bind, wlp_onOther]
  refine wlp_onBuffer (neverThrows_load i) (fun x b => ?_) (fun _ => hs.within)
  rw [wlp_bind, wlp_onThis]
  refine wlp_newElement (fun _ hlt => ?_) (fun _ he => ⟨hs.within, he⟩) hs.within
  exact ⟨congrArg (· + 1) hs.1, hlt, hs.2.2⟩

theorem wlp_moveLoop (h : AtRound c d 0 s) :
    wlp (moveLoop c E) (fun _ => Within c d) (LoopThrows c d E .move) (Within c d) s := by
  rw [moveLoop, wlp_bind, wlp_onOther, wlp_gets]
  refine wlp_mono (wlp_forRange (AtRound c d) ?_ h) (fun _ _ h' => h'.within) (fun _ _ h' => h')
    (fun _ h' => h')
  intro i s hi hs
  rw [moveElement, wlp_bind, wlp_bind, wlp_onOther]
  refine wlp_onBuffer (neverThrows_load i) (fun x b => ?_) (fun _ => hs.within)
  rw [wlp_bind, wlp_onOther]
  refine wlp_onBuffer (neverThrows_assignAt i _) (fun _ _ => ?_) (fun _ => hs.within)
  rw [wlp_onThis]
  refine wlp_newElement (fun _ hlt => ?_) (fun _ he => ⟨hs.within, he⟩) hs.within
  rw [wlp_bind, wlp_onThis, incSize, wlp_modify, wlp_onOther]
  have hnext : s.1.mSize + 1 = i + 1 := congrArg (· + 1) hs.1
  exact wlp_onBuffer (neverThrows_destroyAt i) (fun _ _ => ⟨hnext, hlt, hs.2.2⟩)
    (fun _ => ⟨Nat.le_trans (Nat.le_of_eq hnext) hlt, hs.2.2⟩)

/-! ## Members with a second vector -/

/-- The run-time check refuses what is larger than the capacity. -/
theorem wlp_checkSize {Q : Unit → Vec T × Vec T → Prop} {F : Exn → Vec T × Vec T → Prop}
    {U : Vec T × Vec T → Prop} (hF : c < s.2.mSize → F .lengthError s) (hQ : Q () s) :
    wlp (checkSize c) Q F U s := by
  rw [checkSize, wlp_bind, wlp_onOther, wlp_gets, wlp_ite, wlp_throwing, wlp_pure]
  exact ⟨hF, fun _ => hQ⟩

theorem wlp_checkSizeIfLarger {Q : Unit → Vec T × Vec T → Prop}
    {F : Exn → Vec T × Vec T → Prop} {U : Vec T × Vec T → Prop}
    (hF : c < s.2.mSize → F .lengthError s) (hQ : Q () s) :
    wlp (checkSizeIfLarger c d) Q F U s := by
  rw [checkSizeIfLarger, wlp_ite]
  exact ⟨fun _ => wlp_checkSize hF hQ, fun _ => hQ⟩

/-- A check in front of a member. -/
theorem StaysWithinBoth.checked {p q : Prog (Vec T × Vec T) Exn Unit} (h : Within c d s)
    (hq : ∀ {Q : Unit → Vec T × Vec T → Prop} {F : Exn → Vec T × Vec T → Prop}
      {U : Vec T × Vec T → Prop}, (c < s.2.mSize → F .lengthError s) → Q () s → wlp q Q F U s)
    (hp : StaysWithinBoth c d E k p s) : StaysWithinBoth c d E k (do q; p) s := by
  rw [StaysWithinBoth, wlp_bind]
  exact hq (fun hlarge => ⟨h, Or.inl ⟨rfl, hlarge⟩⟩) hp

theorem staysWithin_copyConstruct (hzero : s.1.mSize = 0) (h : s.2.mSize ≤ d) :
    StaysWithinBoth c d E .copy (copyConstruct c E) s :=
  wlp_mono (wlp_copyLoop ⟨hzero, Nat.zero_le c, h⟩) (fun _ _ h' => h')
    (fun _ _ h' => ⟨h'.1, Or.inr h'.2⟩) (fun _ h' => h')

theorem staysWithin_moveConstruct (hzero : s.1.mSize = 0) (h : s.2.mSize ≤ d) :
    StaysWithinBoth c d E .move (moveConstruct c E) s := by
  rw [StaysWithinBoth, moveConstruct, wlp_bind]
  refine wlp_mono (wlp_moveLoop ⟨hzero, Nat.zero_le c, h⟩) ?_
    (fun _ _ h' => ⟨h'.1, Or.inr h'.2⟩) (fun _ h' => h')
  intro _ s' h'
  rw [wlp_onOther, setSize, wlp_modify]
  exact ⟨h'.1, Nat.zero_le d⟩

theorem within_of_zero (hzero : s.1.mSize = 0) (h : s.2.mSize ≤ d) : Within c d s :=
  ⟨Nat.le_trans (Nat.le_of_eq hzero) (Nat.zero_le c), h⟩

theorem staysWithin_copyConstructor (hzero : s.1.mSize = 0) (h : s.2.mSize ≤ d) :
    StaysWithinBoth c d E .copy (if d = c then copyConstruct c E else copyConstructOther c E)
      s := by
  rw [StaysWithinBoth, wlp_ite]
  exact ⟨fun _ => staysWithin_copyConstruct hzero h,
    fun _ => StaysWithinBoth.checked (within_of_zero hzero h) wlp_checkSize
      (staysWithin_copyConstruct hzero h)⟩

theorem staysWithin_moveConstructor (hzero : s.1.mSize = 0) (h : s.2.mSize ≤ d) :
    StaysWithinBoth c d E .move (if d = c then moveConstruct c E else moveConstructOther c E)
      s := by
  rw [StaysWithinBoth, wlp_ite]
  exact ⟨fun _ => staysWithin_moveConstruct hzero h,
    fun _ => StaysWithinBoth.checked (within_of_zero hzero h) wlp_checkSize
      (staysWithin_moveConstruct hzero h)⟩

/-- An assignment empties its target and goes on like a constructor. -/
theorem StaysWithinBoth.emptied {p : Prog (Vec T) Exn Unit} {q : Prog (Vec T × Vec T) Exn Unit}
    (h : Within c d s)
    (hp : ∀ {F : Exn → Vec T → Prop},
      wlp p (fun _ v' => v'.mSize = 0) F (fun v' => v'.mSize ≤ c) s.1)
    (hq : ∀ v', v'.mSize = 0 → StaysWithinBoth c d E k q (v', s.2)) :
    StaysWithinBoth c d E k (do onThis p; q) s := by
  rw [StaysWithinBoth, wlp_bind, wlp_onThis]
  exact wlp_mono hp (fun _ v' hzero => hq v' hzero) (fun _ _ h' => h') (fun _ h' => ⟨h', h.2⟩)

theorem staysWithin_copyAssignment (self : Bool) (h : Within c d s) :
    StaysWithinBoth c d E .copy
      (if d = c then copyAssign c E self else copyAssignOther c d E) s := by
  have hassign : StaysWithinBoth c d E .copy (do onThis destroyElements; copyLoop c E) s :=
    StaysWithinBoth.emptied h (wlp_destroyElements h.1)
      fun _ hzero => staysWithin_copyConstruct hzero h.2
  rw [StaysWithinBoth, wlp_ite]
  refine ⟨fun _ => ?_, fun _ => StaysWithinBoth.checked h wlp_checkSizeIfLarger hassign⟩
  rw [copyAssign, wlp_ite]
  exact ⟨fun _ => h, fun _ => hassign⟩

theorem staysWithin_moveAssignment (self : Bool) (h : Within c d s) :
    StaysWithinBoth c d E .move
      (if d = c then moveAssign c E self else moveAssignOther c d E) s := by
  have hassign : StaysWithinBoth c d E .move
      (do onThis clear; moveLoop c E; onOther (setSize 0)) s :=
    StaysWithinBoth.emptied h (wlp_clear h.1)
      fun _ hzero => staysWithin_moveConstruct hzero h.2
  rw [StaysWithinBoth, wlp_ite]
  refine ⟨fun _ => ?_, fun _ => StaysWithinBoth.checked h wlp_checkSizeIfLarger hassign⟩
  rw [moveAssign, wlp_ite]
  exact ⟨fun _ => h, fun _ => hassign⟩

/-! ## One call -/

section Calls

variable {c : ι → Nat} {w : ι → Obj T} {t : Traits} {throws : Ctor → Nat → Bool} {op : Op ι T}

/-- No vector is larger than its capacity. -/
def Sized (c : ι → Nat) (w : ι → Obj T) : Prop :=
  ∀ i, (w i).alive = true → (w i).vec.mSize ≤ c i

/-- What an operation may let escape, where a clause asks. -/
def Op.MayThrow (c : ι → Nat) (E : Element T) (w : ι → Obj T) (e : Exn) : Op ι T → Prop
  | .defaultConstruct _ => False
  | .copyConstruct i j | .copyAssign i j => MemberThrows (c i) E .copy (w j).vec e
  | .moveConstruct i j | .moveAssign i j => MemberThrows (c i) E .move (w j).vec e
  | _ => True

/-- `other` exists. -/
theorem Callable.other_alive {i j : ι} (hcall : Callable w op)
    (hop : op.operands = some (i, j)) : (w j).alive = true := by
  cases op with
  | copyConstruct i' j' | moveConstruct i' j' =>
      cases hop
      exact hcall.2.2
  | copyAssign i' j' | moveAssign i' j' =>
      cases hop
      exact hcall.2
  | _ => cases hop

/-- Wherever no check is made or the clause admits no `length_error`, the capacity of `other`
    is not the larger one. -/
theorem capacity_le {i j : ι} (hop : op.operands = some (i, j))
    (h : checkLeftOut c op = true ∨ capacityClause c op = true) : c j ≤ c i := by
  cases op with
  | copyConstruct i' j' | moveConstruct i' j' | copyAssign i' j' | moveAssign i' j' =>
      cases hop
      by_cases heq : c j = c i
      · exact Nat.le_of_eq heq
      · simp [checkLeftOut, capacityClause, heq] at h
        omega
  | _ => cases hop

theorem Sized.fits (hw : Sized c w) {i j : ι} (hcall : Callable w op)
    (hop : op.operands = some (i, j))
    (h : checkLeftOut c op = true ∨ capacityClause c op = true) : (w j).vec.mSize ≤ c i :=
  Nat.le_trans (hw j (hcall.other_alive hop)) (capacity_le hop h)

/-- Vectors that fit and a constructor that does not throw. -/
theorem not_memberThrows {n : Nat} {o : Vec T} {e : Exn} (hfit : o.mSize ≤ n)
    (hk : ∀ i, E.throws k i = false) : ¬ MemberThrows n E k o e := by
  rintro (⟨-, hlarger⟩ | ⟨-, i, hth⟩)
  · exact absurd hfit (Nat.not_le.mpr hlarger)
  · exact absurd (hth.symm.trans (hk i)) (by decide)

theorem moveConstruct_trait {i j : ι}
    (h : traitClause t c (.moveConstruct i j : Op ι T) = true) :
    t.isNothrowMoveConstructible = true := by
  rw [traitClause] at h
  split at h
  · exact (Bool.and_eq_true_iff.mp h).1
  · exact h

/-- A clause that holds leaves nothing to throw. -/
theorem Sized.not_mayThrow (hw : Sized c w) (hthrows : t.Honest throws) (hcall : Callable w op)
    (hclause : noexceptClause t c op = true) (e : Exn) :
    ¬ op.MayThrow c (withThrows E throws) w e := by
  obtain ⟨hcapacity, htrait⟩ := Bool.and_eq_true_iff.mp hclause
  cases op with
  | defaultConstruct i => exact fun h => h
  | copyConstruct i j | copyAssign i j =>
      exact not_memberThrows (hw.fits hcall rfl (Or.inr hcapacity)) (hthrows.1 htrait)
  | moveConstruct i j =>
      exact not_memberThrows (hw.fits hcall rfl (Or.inr hcapacity))
        (hthrows.2 (moveConstruct_trait htrait))
  | moveAssign i j =>
      exact not_memberThrows (hw.fits hcall rfl (Or.inr hcapacity))
        (hthrows.2 htrait)
  | _ => cases htrait

/-- A clause that holds rules out a throw in the middle of a move. -/
theorem movesAtOnce_of_clause (hthrows : t.Honest throws)
    (hclause : noexceptClause t c op = true) : MovesAtOnce c w throws op := by
  obtain ⟨-, htrait⟩ := Bool.and_eq_true_iff.mp hclause
  cases op with
  | moveConstruct i j =>
      exact Or.inr (Or.inr (Or.inr fun k _ => hthrows.2 (moveConstruct_trait htrait) k))
  | moveAssign i j => exact Or.inr (Or.inr (Or.inr fun k _ => hthrows.2 htrait k))
  | _ => trivial

variable [DecidableEq ι]

theorem Sized.update (hw : Sized c w) {i : ι} {x : Obj T}
    (hx : x.alive = true → x.vec.mSize ≤ c i) : Sized c (Function.update w i x) :=
  (Function.forall_update_iff w fun k o => o.alive = true → o.vec.mSize ≤ c k).mpr
    ⟨hx, fun k _ => hw k⟩

theorem StaysWithin.state {c : Nat} {α : Type} {p : Prog (Vec T) Exn α}
    (h : StaysWithin c p v) : (p v).2.mSize ≤ c :=
  wlp_state (R := fun v' : Vec T => v'.mSize ≤ c) h

theorem sized_onObject (hw : Sized c w) {i : ι} {p : Prog (Vec T) Exn Unit}
    (hp : StaysWithin (c i) p (w i).vec) : Sized c (onObject w i p).2 :=
  hw.update fun _ => hp.state

theorem sized_constructing (hw : Sized c w) {i : ι} {p : Prog (Vec T) Exn Unit}
    (hp : StaysWithin (c i) p (Vec.uninitialised (w i).vec.mBuffer)) :
    Sized c (constructing w i p).2 :=
  hw.update fun _ => hp.state

theorem StaysWithinBoth.state {c d : Nat} {p : Prog (Vec T × Vec T) Exn Unit}
    (h : StaysWithinBoth c d E k p s) : Within c d (p s).2 :=
  wlp_state (wlp_mono h (fun _ _ h' => h') (fun _ _ h' => h'.1) (fun _ h' => h'))

theorem StaysWithinBoth.threw {c d : Nat} {p : Prog (Vec T × Vec T) Exn Unit} {e : Exn}
    (h : StaysWithinBoth c d E k p s) (hthrew : (p s).1 = .threw e) : MemberThrows c E k s.2 e :=
  (wlp_of_threw h hthrew).2

theorem sized_onObjects (hw : Sized c w) {i j : ι} {p : Prog (Vec T × Vec T) Exn Unit}
    (hp : StaysWithinBoth (c i) (c j) E k p ((w i).vec, (w j).vec)) :
    Sized c (onObjects w i j p).2
      ∧ ∀ e, (onObjects w i j p).1 = .threw e → MemberThrows (c i) E k (w j).vec e :=
  ⟨(hw.update fun _ => hp.state.2).update fun _ => hp.state.1, fun _ hthrew => hp.threw hthrew⟩

theorem sized_constructingFrom (hw : Sized c w) {i j : ι} {p : Prog (Vec T × Vec T) Exn Unit}
    (hp : StaysWithinBoth (c i) (c j) E k p
      (Vec.uninitialised (w i).vec.mBuffer, (w j).vec)) :
    Sized c (constructingFrom w i j p).2
      ∧ ∀ e, (constructingFrom w i j p).1 = .threw e → MemberThrows (c i) E k (w j).vec e :=
  ⟨(hw.update fun _ => hp.state.2).update fun _ => hp.state.1, fun _ hthrew => hp.threw hthrew⟩

/-- **One call keeps the sizes within the capacities**, and says what it may throw. -/
theorem sized_exec (hw : Sized c w) (op : Op ι T) (hcall : Callable w op) :
    Sized c (exec c E w op).2 ∧ ∀ e, (exec c E w op).1 = .threw e → op.MayThrow c E w e := by
  cases op with
  | defaultConstruct i =>
      refine ⟨sized_constructing hw (staysWithin_pure (Nat.zero_le _) ()), ?_⟩
      intro e hthrew
      cases hthrew
  | initConstruct i init =>
      refine ⟨sized_constructing hw ?_, fun _ _ => trivial⟩
      rw [initConstruct, StaysWithin, wlp_ite]
      exact ⟨fun _ => Nat.zero_le _, fun _ => staysWithin_initLoop init (Nat.zero_le _)⟩
  | copyConstruct i j =>
      exact sized_constructingFrom hw (staysWithin_copyConstructor rfl (hw j hcall.2.2))
  | moveConstruct i j =>
      exact sized_constructingFrom hw (staysWithin_moveConstructor rfl (hw j hcall.2.2))
  | copyAssign i j =>
      exact sized_onObjects hw (staysWithin_copyAssignment _ ⟨hw i hcall.1, hw j hcall.2⟩)
  | moveAssign i j =>
      exact sized_onObjects hw (staysWithin_moveAssignment _ ⟨hw i hcall.1, hw j hcall.2⟩)
  | pushBackCopy i value =>
      exact ⟨sized_onObject hw (staysWithin_ends (staysWithin_guard (hw i hcall)
        (staysWithin_append (hw i hcall) value))), fun _ _ => trivial⟩
  | pushBackMove i value =>
      refine ⟨sized_onObject hw (staysWithin_ends (staysWithin_guard (hw i hcall) ?_)),
        fun _ _ => trivial⟩
      exact (staysWithin_append (hw i hcall) value).bind fun _ _ h => h
  | emplaceBack i value =>
      exact ⟨sized_onObject hw (staysWithin_ends (staysWithin_emplaceBack (hw i hcall) value)),
        fun _ _ => trivial⟩
  | popBack i =>
      exact ⟨sized_onObject hw (staysWithin_popBack (hw i hcall)), fun _ _ => trivial⟩
  | clear i => exact ⟨sized_onObject hw (staysWithin_clear (hw i hcall)), fun _ _ => trivial⟩
  | resize i n =>
      exact ⟨sized_onObject hw (staysWithin_resize (hw i hcall) n), fun _ _ => trivial⟩
  | destruct i =>
      have hclear := sized_onObject hw (p := destruct) (staysWithin_clear (hw i hcall))
      exact ⟨hclear.update fun halive => absurd halive Bool.false_ne_true, fun _ _ => trivial⟩

/-! ## Whole runs -/

/-- What the clauses promise, of whichever call comes next. -/
structure NoexceptSound (t : Traits) (c : ι → Nat) (E : Element T) (w : ι → Obj T) : Prop where
  /-- nothing escapes from a call whose clause holds -/
  quiet : ∀ throws op, t.Honest throws → Callable w op → noexceptClause t c op = true →
    ∀ e, (exec c (withThrows E throws) w op).1 ≠ .threw e
  /-- among vectors in order such a call returns -/
  returns : ∀ throws op, t.Honest throws → Callable w op → noexceptClause t c op = true →
    InOrder c w → (exec c (withThrows E throws) w op).1 = .ok ()
  /-- where the size check is left out or the clause admits no `length_error`, the elements
      of `other` fit -/
  fits : ∀ op i j, Callable w op → op.operands = some (i, j) →
    checkLeftOut c op = true ∨ capacityClause c op = true → (w j).vec.mSize ≤ c i

theorem Sized.noexceptSound (hw : Sized c w) : NoexceptSound t c E w where
  quiet throws op hthrows hcall hclause e hthrew :=
    hw.not_mayThrow hthrows hcall hclause e ((sized_exec hw op hcall).2 e hthrew)
  returns throws op hthrows hcall hclause horder := by
    obtain ⟨-, hdefined⟩ := inOrder_exec (E := E) horder op hcall
      (movesAtOnce_of_clause hthrows hclause)
    cases hout : (exec c (withThrows E throws) w op).1 with
    | ok a => rfl
    | threw e =>
        have hmay := (sized_exec hw op hcall).2 e hout
        exact absurd hmay (hw.not_mayThrow hthrows hcall hclause e)
    | undefined => exact absurd hout hdefined.1
    | diverged => exact absurd hout hdefined.2
  fits op i j hcall hop h := hw.fits hcall hop h

/-- **The `noexcept` clauses are sound** after every run in which constructors throw only
    where their traits allow it. -/
theorem runs_noexcept_sound {tr : List (Event ι T)}
    (h : Run ((throwingVectors c E).restrict fun _ a => t.Honest a.1) tr w) :
    NoexceptSound t c E w := by
  have hsized : Sized c w := by
    refine Run.invariant (I := fun _ w => Sized c w) ?_ ?_ h.of_restrict
    · intro w hw i halive
      exact absurd ((hw i).1.symm.trans halive) Bool.false_ne_true
    · rintro tr w ⟨throws, op, out⟩ w' - hw ⟨hcall, hexec⟩
      have hnext := (sized_exec (E := withThrows E throws) hw op hcall).1
      rwa [hexec] at hnext
  exact hsized.noexceptSound

/-- Copies do not throw, moves may. -/
def copiesOnly : Traits := ⟨true, false, true⟩

theorem copiesOnly_honest {throws : Ctor → Nat → Bool} (h : ∀ i, throws .copy i = false) :
    copiesOnly.Honest throws := ⟨fun _ => h, fun hmove => absurd hmove Bool.false_ne_true⟩

end Calls

/-- Two vectors, of capacities `2` and `3`. -/
def twoAndThree (i : Bool) : Nat := if i then 2 else 3

/-- The move of 8 into a larger vector throws and leaves a gap. -/
def moveLeavesGap : List (Event Bool Nat) :=
  [(neverThrows.throws, .initConstruct true [7, 8], .ok ()),
    (neverThrows.throws, .defaultConstruct false, .ok ()),
    (throwsAt .move 1, .moveAssign false true, .threw .element)]

theorem moveLeavesGap_noexcept_sound : ∃ w,
    Run ((throwingVectors twoAndThree neverThrows).restrict fun _ a => copiesOnly.Honest a.1)
      moveLeavesGap w
    ∧ (w true).vec.mBuffer 0 = none ∧ (w true).vec.mSize = 2
    ∧ NoexceptSound copiesOnly twoAndThree neverThrows w := by
  have hstart : Run ((throwingVectors twoAndThree neverThrows).restrict
      fun _ a => copiesOnly.Honest a.1) [] noVectors := .start fun _ => ⟨rfl, holds_empty⟩
  have hinit := run_throwing hstart neverThrows.throws (.initConstruct true [7, 8])
    ⟨rfl, holds_empty⟩ (copiesOnly_honest fun _ => rfl)
  have hdefault := run_throwing hinit neverThrows.throws (.defaultConstruct false)
    ⟨rfl, holds_empty⟩ (copiesOnly_honest fun _ => rfl)
  have hmove := run_throwing hdefault (throwsAt .move 1) (.moveAssign false true) ⟨rfl, rfl⟩
    (copiesOnly_honest fun _ => rfl)
  exact ⟨_, hmove, rfl, rfl, runs_noexcept_sound hmove⟩

end FixedCapacityVector
