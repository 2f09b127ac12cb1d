import CppPlayground.FixedCapacityVector.Exceptions
import CppPlayground.FixedCapacityVector.Refinement

/-! # `FixedCapacityVector`: appending, copying and resizing when constructors throw

    Runs in which any call of a constructor of `T` may throw.  A vector in order gets
    through an append, a copy assignment and a `resize` that fail; what takes a vector out
    of order is a move that throws when elements have been moved out of its source. -/

namespace FixedCapacityVector

open Program Storage Transition

variable {T ι : Type}

/-- The element type with the exceptions of one call. -/
def withThrows (E : Element T) (throws : Ctor → Nat → Bool) : Element T :=
  { E with throws := throws }

/-- What the language asks of a call.  A constructor runs on storage without an element,
    so not where a constructor that threw has left some. -/
def Callable (w : ι → Obj T) : Op ι T → Prop
  | .defaultConstruct i | .initConstruct i _ =>
      (w i).alive = false ∧ Holds (w i).vec.mBuffer []
  | .copyConstruct i j | .moveConstruct i j =>
      (w i).alive = false ∧ Holds (w i).vec.mBuffer [] ∧ (w j).alive = true
  | .copyAssign i j | .moveAssign i j => (w i).alive = true ∧ (w j).alive = true
  | .pushBackCopy i _ | .pushBackMove i _ | .emplaceBack i _ | .popBack i | .clear i
  | .resize i _ | .destruct i => (w i).alive = true

/-- Which constructor calls throw, the operation, and how it ended. -/
abbrev Event (ι T : Type) : Type := (Ctor → Nat → Bool) × Op ι T × Outcome Exn Unit

section Systems

variable [DecidableEq ι]

/-- All runs, with exceptions at any call of a constructor of `T`. -/
def throwingVectors (c : ι → Nat) (E : Element T) : System (ι → Obj T) (Event ι T) where
  init w := ∀ i, (w i).alive = false ∧ Holds (w i).vec.mBuffer []
  step w a w' := Callable w a.2.1 ∧ exec c (withThrows E a.1) w a.2.1 = (a.2.2, w')

/-- A move out of another vector is refused for its size, throws at the first element or
    does not throw. -/
def MovesAtOnce (c : ι → Nat) (w : ι → Obj T) (throws : Ctor → Nat → Bool) : Op ι T → Prop
  | .moveConstruct i j | .moveAssign i j => i = j ∨ c i < (w j).vec.mSize
      ∨ throws .move 0 = true ∨ ∀ k < (w j).vec.mSize, throws .move k = false
  | _ => True

/-- `push_back` and `emplace_back`. -/
def Op.Appends : Op ι T → Prop
  | .pushBackCopy _ _ | .pushBackMove _ _ | .emplaceBack _ _ => True
  | _ => False

/-- What the failing calls leave behind, whichever constructor calls throw. -/
structure Survives (c : ι → Nat) (E : Element T) (w : ι → Obj T) : Prop where
  /-- an append whose construction throws changes nothing -/
  append : ∀ throws op, Op.Appends op → (w op.target).alive = true →
    (exec c (withThrows E throws) w op).1 = .threw .element →
      (exec c (withThrows E throws) w op).2 = w
  /-- a copy assignment whose `k`-th copy is the first to throw ends there: it has destroyed
      the old elements, each once, and made `k` copies -/
  copyAssign : ∀ throws i j k, (w i).alive = true → (w j).alive = true → i ≠ j →
    (w j).vec.mSize ≤ c i → FirstThrow (withThrows E throws) .copy (w j).vec.mSize k →
      (exec c (withThrows E throws) w (.copyAssign i j)).1 = .threw .element
      ∧ wp destroyElements (fun _ v => Holds v.mBuffer []) (fun _ _ => False) (w i).vec
      ∧ ∃ v, (exec c (withThrows E throws) w (.copyAssign i j)).2
          = Function.update w i { w i with vec := v }
        ∧ v.mSize = k ∧ ∀ p, v.mBuffer p = if p < k then (w j).vec.mBuffer p else none
  /-- a `resize` that fails when it constructs an element keeps those before -/
  resize : ∀ throws i n, (w i).alive = true →
    (exec c (withThrows E throws) w (.resize i n)).1 = .threw .element →
      ∃ v j, (exec c (withThrows E throws) w (.resize i n)).2
          = Function.update w i { w i with vec := v }
        ∧ v.mSize = (w i).vec.mSize + j ∧ Exact v
        ∧ (∀ p < (w i).vec.mSize, v.mBuffer p = (w i).vec.mBuffer p)
        ∧ ∀ p, (w i).vec.mSize ≤ p → p < (w i).vec.mSize + j → v.mBuffer p = some E.dflt

end Systems

/-! ## Vectors in order -/

variable {c : ι → Nat} {E : Element T} {w : ι → Obj T} {throws : Ctor → Nat → Bool}
  {m n : Nat} {v o : Vec T} {xs ys : List T}

/-- Every vector stands for a list. -/
def InOrder (c : ι → Nat) (w : ι → Obj T) : Prop :=
  ∀ i, (w i).alive = true → ∃ xs, Rep (c i) (w i).vec xs

/-- A program that leaves a vector in order however it ends. -/
def Keeps (n : Nat) (p : Prog (Vec T) Exn Unit) (v : Vec T) : Prop :=
  wp p (fun _ v' => ∃ xs, Rep n v' xs) (fun _ v' => ∃ xs, Rep n v' xs) v

/-- The same of two vectors. -/
def KeepsBoth (m n : Nat) (p : Prog (Vec T × Vec T) Exn Unit) (s : Vec T × Vec T) : Prop :=
  wp p (fun _ s' => (∃ xs, Rep m s'.1 xs) ∧ ∃ ys, Rep n s'.2 ys)
    (fun _ s' => (∃ xs, Rep m s'.1 xs) ∧ ∃ ys, Rep n s'.2 ys) s

/-- A call that returned or threw. -/
def Defined (out : Outcome Exn Unit) : Prop := out ≠ .undefined ∧ out ≠ .diverged

theorem defined_ok : Defined (.ok ()) := by simp [Defined]

theorem defined_threw (e : Exn) : Defined (.threw e) := by simp [Defined]

theorem defined_of_wp {σ : Type} {p : Prog σ Exn Unit} {Q : Unit → σ → Prop}
    {F : Exn → σ → Prop} {s : σ} (h : wp p Q F s) : Defined (p s).1 := by
  rcases wp_cases h with ⟨a, hok, -⟩ | ⟨e, hthrew, -⟩
  · rw [hok]
    exact defined_ok
  · rw [hthrew]
    exact defined_threw e

theorem keeps_append {α : Type} {kind : Ctor} {x : T} {p : Prog (Vec T) Exn α}
    {Q : α → Vec T → Prop} (h : Rep n v xs) (hQ : ∀ a v', Q a v' → Rep n v' (xs ++ [x]))
    (hp : wp p Q (AppendFails n E kind v xs) v) : Keeps n (ends p) v := by
  rw [Keeps, ends, wp_bind]
  refine wp_mono hp (fun a v' hq => ⟨_, hQ a v' hq⟩) ?_
  rintro e v' ⟨rfl, -⟩
  exact ⟨xs, h⟩

theorem keepsBoth_copy {p : Prog (Vec T × Vec T) Exn Unit} (h : Rep m v xs) (ho : Rep n o ys)
    (hp : wp p (fun _ s => ys.length ≤ m ∧ Rep m s.1 ys ∧ s.2 = o) (CopyFails m E v o ys)
      (v, o)) : KeepsBoth m n p (v, o) := by
  refine wp_mono hp ?_ ?_
  · rintro _ s ⟨-, hr, hs⟩
    exact ⟨⟨ys, hr⟩, ys, hs ▸ ho⟩
  · rintro e s ⟨hs, ⟨-, -, hv⟩ | ⟨-, -, k, -, -, hr⟩⟩
    · exact ⟨⟨xs, hv ▸ h⟩, ys, hs ▸ ho⟩
    · exact ⟨⟨_, hr⟩, ys, hs ▸ ho⟩

/-- A member that moves, on vectors in order. -/
theorem Moving.member_spec {member : Moving} (h : member.Starts m v) (ho : Rep n o ys) :
    wp (member.member m n E) (fun _ s => Rep m s.1 ys ∧ Rep n s.2 []) (MoveFails m E v o ys)
      (v, o) := by
  cases member with
  | construct =>
      rw [Moving.member]
      exact wp_mono (moveConstruct_selected h ho) (fun _ _ hq => hq.2) (fun _ _ hf => hf)
  | assign =>
      obtain ⟨xs, h⟩ := h
      rw [Moving.member]
      exact wp_mono (moveAssign_selected h ho) (fun _ _ hq => hq.2) (fun _ _ hf => hf)

/-- A source nothing has been moved out of. -/
theorem MovedOut.rep {zs : List T} (h : MovedOut 0 o zs) (hfit : zs.length ≤ n) : Rep n o zs :=
  ⟨h.size, hfit, fun i => by rw [h.holds, if_neg (Nat.not_lt_zero i)]⟩

/-- A move that is refused, throws at the first element or does not throw leaves both
    vectors in order. -/
theorem keepsBoth_moving (member : Moving) (h : member.Starts m v) (hv : ∃ xs, Rep m v xs)
    (ho : Rep n o ys) (honce : m < ys.length ∨ E.throws .move 0 = true ∨
      ∀ k < ys.length, E.throws .move k = false) :
    KeepsBoth m n (member.member m n E) (v, o) := by
  by_cases hfirst : ys.length ≤ m ∧ 0 < ys.length ∧ E.throws .move 0 = true
  · obtain ⟨hfit, hpos, hth⟩ := hfirst
    have hstops := Moving.member_stops h ho hfit ⟨hpos, hth, noneThrows_zero E .move⟩
    refine wp_mono hstops (fun _ _ hf => hf.elim) ?_
    rintro e s ⟨-, hr, zs, hlen, hs⟩
    exact ⟨⟨_, hr⟩, zs, hs.rep (hlen ▸ ho.fits)⟩
  · refine wp_mono (Moving.member_spec h ho) (fun _ _ hq => ⟨⟨ys, hq.1⟩, [], hq.2⟩) ?_
    rintro e s (⟨-, -, rfl⟩ | ⟨-, hfit, k, hk, hth, -⟩)
    · exact ⟨hv, ys, ho⟩
    · -- a move would have thrown that is not the first
      rcases honce with hlt | hzero | hnone
      · exact absurd hfit (Nat.not_le.mpr hlt)
      · exact absurd ⟨hfit, Nat.zero_lt_of_lt hk, hzero⟩ hfirst
      · exact absurd (hth.symm.trans (hnone k hk)) (by decide)

/-! ## One call -/

variable [DecidableEq ι]

/-- Another object, in order if it exists, in the place of one. -/
theorem InOrder.update (hw : InOrder c w) {i : ι} {x : Obj T}
    (hx : x.alive = true → ∃ xs, Rep (c i) x.vec xs) : InOrder c (Function.update w i x) :=
  (Function.forall_update_iff w fun k o => o.alive = true → ∃ xs, Rep (c k) o.vec xs).mpr
    ⟨hx, fun k _ => hw k⟩

theorem inOrder_onObject (hw : InOrder c w) {i : ι} {p : Prog (Vec T) Exn Unit}
    (hp : Keeps (c i) p (w i).vec) :
    InOrder c (onObject w i p).2 ∧ Defined (onObject w i p).1 := by
  have hdefined : Defined (p (w i).vec).1 := defined_of_wp hp
  exact ⟨hw.update fun _ => wp_state (R := fun v => ∃ xs, Rep (c i) v xs) hp, hdefined⟩

theorem inOrder_constructing (hw : InOrder c w) {i : ι} {p : Prog (Vec T) Exn Unit}
    (hp : Keeps (c i) p (Vec.uninitialised (w i).vec.mBuffer)) :
    InOrder c (constructing w i p).2 ∧ Defined (constructing w i p).1 := by
  have hdefined : Defined (p (Vec.uninitialised (w i).vec.mBuffer)).1 := defined_of_wp hp
  exact ⟨hw.update fun _ => wp_state (R := fun v => ∃ xs, Rep (c i) v xs) hp, hdefined⟩

theorem inOrder_onObjects (hw : InOrder c w) {i j : ι} {p : Prog (Vec T × Vec T) Exn Unit}
    (hp : KeepsBoth (c i) (c j) p ((w i).vec, (w j).vec)) :
    InOrder c (onObjects w i j p).2 ∧ Defined (onObjects w i j p).1 := by
  have hdefined : Defined (p ((w i).vec, (w j).vec)).1 := defined_of_wp hp
  obtain ⟨hthis, hother⟩ := wp_state
    (R := fun s : Vec T × Vec T => (∃ xs, Rep (c i) s.1 xs) ∧ ∃ ys, Rep (c j) s.2 ys) hp
  exact ⟨(hw.update fun _ => hother).update fun _ => hthis, hdefined⟩

theorem inOrder_constructingFrom (hw : InOrder c w) {i j : ι}
    {p : Prog (Vec T × Vec T) Exn Unit}
    (hp : KeepsBoth (c i) (c j) p (Vec.uninitialised (w i).vec.mBuffer, (w j).vec)) :
    InOrder c (constructingFrom w i j p).2 ∧ Defined (constructingFrom w i j p).1 := by
  have hdefined : Defined (p (Vec.uninitialised (w i).vec.mBuffer, (w j).vec)).1 :=
    defined_of_wp hp
  obtain ⟨hthis, hother⟩ := wp_state
    (R := fun s : Vec T × Vec T => (∃ xs, Rep (c i) s.1 xs) ∧ ∃ ys, Rep (c j) s.2 ys) hp
  exact ⟨(hw.update fun _ => hother).update fun _ => hthis, hdefined⟩

/-- Assignment to itself. -/
theorem inOrder_self (hw : InOrder c w) {i : ι} {p : Prog (Vec T × Vec T) Exn Unit}
    (hp : ∀ s, p s = (.ok (), s)) :
    InOrder c (onObjects w i i p).2 ∧ Defined (onObjects w i i p).1 := by
  simp only [onObjects, hp, Function.update_eq_self]
  exact ⟨hw, defined_ok⟩

/-- **One call keeps the vectors in order** unless it throws in the middle of a move. -/
theorem inOrder_exec (hw : InOrder c w) (op : Op ι T) (hcall : Callable w op)
    (honce : MovesAtOnce c w throws op) :
    InOrder c (exec c (withThrows E throws) w op).2
      ∧ Defined (exec c (withThrows E throws) w op).1 := by
  cases op with
  | defaultConstruct i =>
      exact inOrder_constructing hw ⟨[], rep_uninitialised (c i) hcall.2⟩
  | initConstruct i init =>
      refine inOrder_constructing hw (wp_mono
        (initConstruct_spec (rep_uninitialised (c i) hcall.2) init)
        (fun _ _ hq => ⟨init, hq.2⟩) ?_)
      rintro e v' (⟨-, -, rfl⟩ | ⟨-, -, k, -, -, hr⟩)
      · exact ⟨[], rep_uninitialised (c i) hcall.2⟩
      · exact ⟨_, hr⟩
  | copyConstruct i j =>
      obtain ⟨-, hraw, hj⟩ := hcall
      obtain ⟨ys, ho⟩ := hw j hj
      have hempty := rep_uninitialised (c i) hraw
      exact inOrder_constructingFrom hw
        (keepsBoth_copy hempty ho (copyConstruct_selected hempty ho))
  | moveConstruct i j =>
      obtain ⟨hi, hraw, hj⟩ := hcall
      obtain ⟨ys, ho⟩ := hw j hj
      have hempty := rep_uninitialised (c i) hraw
      have hne : i ≠ j := by
        rintro rfl
        exact absurd (hi.symm.trans hj) (by decide)
      rcases honce with heq | honce
      · exact absurd heq hne
      · rw [ho.size] at honce
        exact inOrder_constructingFrom hw
          (keepsBoth_moving .construct hempty ⟨[], hempty⟩ ho honce)
  | copyAssign i j =>
      obtain ⟨hi, hj⟩ := hcall
      obtain ⟨xs, hr⟩ := hw i hi
      obtain ⟨ys, ho⟩ := hw j hj
      by_cases hij : i = j
      · subst hij
        simp only [exec, decide_true, if_true]
        exact inOrder_self hw (copyAssign_self (c i) _)
      · simp only [exec, decide_eq_false hij]
        exact inOrder_onObjects hw (keepsBoth_copy hr ho (copyAssign_selected hr ho))
  | moveAssign i j =>
      obtain ⟨hi, hj⟩ := hcall
      obtain ⟨xs, hr⟩ := hw i hi
      obtain ⟨ys, ho⟩ := hw j hj
      by_cases hij : i = j
      · subst hij
        simp only [exec, decide_true, if_true]
        exact inOrder_self hw (moveAssign_self (c i) _)
      · rcases honce with heq | honce
        · exact absurd heq hij
        · rw [ho.size] at honce
          simp only [exec, decide_eq_false hij]
          exact inOrder_onObjects hw
            (keepsBoth_moving .assign ⟨xs, hr⟩ ⟨xs, hr⟩ ho honce)
  | pushBackCopy i value =>
      obtain ⟨xs, hr⟩ := hw i hcall
      exact inOrder_onObject hw (keeps_append hr (fun _ _ hq => hq.2) (pushBackCopy_spec hr value))
  | pushBackMove i value =>
      obtain ⟨xs, hr⟩ := hw i hcall
      exact inOrder_onObject hw
        (keeps_append hr (fun _ _ hq => hq.2.2) (pushBackMove_spec hr value))
  | emplaceBack i value =>
      obtain ⟨xs, hr⟩ := hw i hcall
      exact inOrder_onObject hw
        (keeps_append hr (fun _ _ hq => hq.2.2) (emplaceBack_spec hr value))
  | popBack i =>
      obtain ⟨xs, hr⟩ := hw i hcall
      refine inOrder_onObject hw (wp_mono (popBack_spec hr) (fun _ _ hq => ⟨_, hq.2⟩) ?_)
      rintro e v' ⟨-, -, rfl⟩
      exact ⟨xs, hr⟩
  | clear i =>
      obtain ⟨xs, hr⟩ := hw i hcall
      exact inOrder_onObject hw
        (wp_mono (clear_spec hr) (fun _ _ hq => ⟨[], hq⟩) (fun _ _ hf => hf.elim))
  | resize i n =>
      obtain ⟨xs, hr⟩ := hw i hcall
      refine inOrder_onObject hw (wp_mono (resize_spec hr n) (fun _ _ hq => ⟨_, hq⟩) ?_)
      rintro e v' ⟨j, -, hr', -⟩
      exact ⟨_, hr'⟩
  | destruct i =>
      obtain ⟨xs, hr⟩ := hw i hcall
      have hclear : Keeps (c i) destruct (w i).vec :=
        wp_mono (clear_spec hr) (fun _ _ hq => ⟨[], hq⟩) (fun _ _ hf => hf.elim)
      obtain ⟨hnext, hdefined⟩ := inOrder_onObject hw hclear
      exact ⟨hnext.update fun halive => absurd halive Bool.false_ne_true, hdefined⟩

/-! ## Calls that fail -/

/-- An append that throws, for whatever reason, has changed nothing. -/
theorem onObject_append_threw {α : Type} {kind : Ctor} {i : ι} {p : Prog (Vec T) Exn α}
    {Q : α → Vec T → Prop} {e : Exn}
    (hp : wp p Q (AppendFails (c i) E kind (w i).vec xs) (w i).vec)
    (hthrew : (onObject w i (ends p)).1 = .threw e) : (onObject w i (ends p)).2 = w := by
  have hends : wp (ends p) (fun _ _ => True) (fun _ v' => v' = (w i).vec) (w i).vec := by
    rw [ends, wp_bind]
    exact wp_mono hp (fun _ _ _ => trivial) (fun _ _ hf => hf.1)
  have hsame : (ends p (w i).vec).2 = (w i).vec := wp_of_threw hends hthrew
  show Function.update w i { w i with vec := (ends p (w i).vec).2 } = w
  rw [hsame, Function.update_eq_self]

theorem InOrder.append (hw : InOrder c w) (op : Op ι T) (happends : op.Appends)
    (halive : (w op.target).alive = true)
    (hthrew : (exec c E w op).1 = .threw .element) : (exec c E w op).2 = w := by
  obtain ⟨xs, hr⟩ := hw _ halive
  cases op with
  | pushBackCopy i value => exact onObject_append_threw (pushBackCopy_spec hr value) hthrew
  | pushBackMove i value => exact onObject_append_threw (pushBackMove_spec hr value) hthrew
  | emplaceBack i value => exact onObject_append_threw (emplaceBack_spec hr value) hthrew
  | _ => exact happends.elim

theorem copyAssign_stops {k : Nat} (h : Rep m v xs) (ho : Rep n o ys) (hfit : ys.length ≤ m)
    (hk : FirstThrow E .copy ys.length k) :
    wp (if n = m then copyAssign m E false else copyAssignOther m n E) (fun _ _ => False)
      (fun e s => e = .element ∧ Rep m s.1 (ys.take k) ∧ s.2 = o) (v, o) := by
  rw [wp_ite]
  exact ⟨fun _ => onThis_emptied (destroyElements_spec h) fun _ hu => copyLoop_stops hu ho hfit hk,
    fun _ => checkSizeIfLarger_guard ho (fun _ => onThis_emptied (destroyElements_spec h)
      fun _ hu => copyLoop_stops hu ho hfit hk) (fun hc => absurd hc (Nat.not_lt.mpr hfit))⟩

theorem InOrder.copyAssign (hw : InOrder c w) {i j : ι} {k : Nat} (hi : (w i).alive = true)
    (hj : (w j).alive = true) (hij : i ≠ j) (hfit : (w j).vec.mSize ≤ c i)
    (hk : FirstThrow E .copy (w j).vec.mSize k) :
    (exec c E w (.copyAssign i j)).1 = .threw .element
      ∧ ∃ v, (exec c E w (.copyAssign i j)).2 = Function.update w i { w i with vec := v }
        ∧ v.mSize = k ∧ ∀ p, v.mBuffer p = if p < k then (w j).vec.mBuffer p else none := by
  obtain ⟨xs, hr⟩ := hw i hi
  obtain ⟨ys, ho⟩ := hw j hj
  rw [ho.size] at hfit hk
  obtain ⟨e, hthrew, rfl, hcopied, hsource⟩ := wp_threw (copyAssign_stops hr ho hfit hk)
  simp only [exec, decide_eq_false hij, onObjects, hsource, Function.update_eq_self]
  refine ⟨hthrew, _, rfl, ?_, ?_⟩
  · rw [hcopied.size, List.length_take]
    exact Nat.min_eq_left (Nat.le_of_lt hk.lt)
  · intro p
    rw [hcopied.holds, ho.holds, List.getElem?_take]

theorem InOrder.resize (hw : InOrder c w) {i : ι} {n : Nat} (hi : (w i).alive = true)
    (hthrew : (exec c E w (.resize i n)).1 = .threw .element) :
    ∃ v j, (exec c E w (.resize i n)).2 = Function.update w i { w i with vec := v }
      ∧ v.mSize = (w i).vec.mSize + j ∧ Exact v
      ∧ (∀ p < (w i).vec.mSize, v.mBuffer p = (w i).vec.mBuffer p)
      ∧ ∀ p, (w i).vec.mSize ≤ p → p < (w i).vec.mSize + j → v.mBuffer p = some E.dflt := by
  obtain ⟨xs, hr⟩ := hw i hi
  obtain ⟨j, hj, hr', -⟩ := wp_of_threw (resize_spec hr n) hthrew
  refine ⟨_, j, rfl, ?_, hr'.exact, ?_, ?_⟩
  · rw [hr'.size, hr.size, List.length_append, List.length_replicate]
  · intro p hp
    rw [hr.size] at hp
    rw [hr'.holds, hr.holds, List.getElem?_append_left hp]
  · intro p hle hlt
    rw [hr.size] at hle hlt
    rw [hr'.holds, List.getElem?_append_right hle, List.getElem?_replicate, if_pos (by omega)]

/-- Vectors in order get through the calls that fail. -/
theorem InOrder.survives (hw : InOrder c w) : Survives c E w where
  append throws op happends halive := hw.append op happends halive
  copyAssign throws i j k hi hj hij hfit hk := by
    obtain ⟨xs, hr⟩ := hw i hi
    obtain ⟨hthrew, v, hnext⟩ := hw.copyAssign hi hj hij hfit hk
    refine ⟨hthrew, ?_, v, hnext⟩
    exact wp_mono (destroyElements_spec hr) (fun _ _ hr' => hr'.holds) (fun _ _ hf => hf)
  resize throws i n hi hthrew := hw.resize hi hthrew

/-! ## Whole runs -/

/-- **Appending, copy assignment and `resize` survive a constructor that throws**, after
    every run in which no move throws when elements have been moved.  No call of such a run
    has met undefined behaviour. -/
theorem runs_survive {tr : List (Event ι T)}
    (h : Run ((throwingVectors c E).restrict fun w a => MovesAtOnce c w a.1 a.2.1) tr w) :
    Survives c E w ∧ ∀ a ∈ tr, Defined a.2.2 := by
  have hinv : InOrder c w ∧ ∀ a ∈ tr, Defined a.2.2 := by
    refine Run.invariant (S := (throwingVectors c E).restrict _)
      (I := fun tr w => InOrder c w ∧ ∀ a ∈ tr, Defined a.2.2) ?_ ?_ h
    · intro w hw
      refine ⟨fun i halive => ?_, nofun⟩
      exact absurd ((hw i).1.symm.trans halive) Bool.false_ne_true
    · rintro tr w ⟨throws, op, out⟩ w' - ⟨hw, hdefined⟩ ⟨⟨hcall, hexec⟩, honce⟩
      have hnext := inOrder_exec (E := E) hw op hcall honce
      rw [hexec] at hnext
      refine ⟨hnext.1, ?_⟩
      intro a ha
      rcases List.mem_append.mp ha with hold | hnew
      · exact hdefined a hold
      · obtain rfl := List.mem_singleton.mp hnew
        exact hnext.2
  exact ⟨hinv.1.survives, hinv.2⟩

/-- Every call the language allows can be the next one. -/
theorem run_throwing {C : (ι → Obj T) → Event ι T → Prop} {tr : List (Event ι T)}
    (h : Run ((throwingVectors c E).restrict C) tr w) (throws : Ctor → Nat → Bool) (op : Op ι T)
    (hcall : Callable w op) (hC : C w (throws, op, (exec c (withThrows E throws) w op).1)) :
    Run ((throwingVectors c E).restrict C)
      (tr ++ [(throws, op, (exec c (withThrows E throws) w op).1)])
      (exec c (withThrows E throws) w op).2 :=
  .snoc h ⟨⟨hcall, rfl⟩, hC⟩

/-- The call of a `kind`-constructor for place `k` throws. -/
def throwsAt (kind : Ctor) (k : Nat) : Ctor → Nat → Bool := fun l i => l == kind && i == k

/-- Storage for two vectors. -/
def noVectors (_ : Bool) : Obj Nat := ⟨false, noElements⟩

theorem run_noVectors (C : (Bool → Obj Nat) → Event Bool Nat → Prop) :
    Run ((throwingVectors (fun _ => 3) neverThrows).restrict C) [] noVectors :=
  .start fun _ => ⟨rfl, holds_empty⟩

/-- The copy of 8 throws, and then the move of 7. -/
def copyThenMove : List (Event Bool Nat) :=
  [(neverThrows.throws, .initConstruct true [7, 8], .ok ()),
    (neverThrows.throws, .defaultConstruct false, .ok ()),
    (throwsAt .copy 1, .copyAssign false true, .threw .element),
    (throwsAt .move 0, .moveAssign false true, .threw .element)]

theorem copyThenMove_survives : ∃ w,
    Run ((throwingVectors (fun _ => 3) neverThrows).restrict
      fun w a => MovesAtOnce (fun _ => 3) w a.1 a.2.1) copyThenMove w
    ∧ Survives (fun _ => 3) neverThrows w := by
  have hinit := run_throwing
    (run_noVectors fun w a => MovesAtOnce (fun _ => 3) w a.1 a.2.1) neverThrows.throws
    (.initConstruct true [7, 8]) ⟨rfl, holds_empty⟩ trivial
  have hdefault := run_throwing hinit neverThrows.throws (.defaultConstruct false)
    ⟨rfl, holds_empty⟩ trivial
  have hcopy := run_throwing hdefault (throwsAt .copy 1) (.copyAssign false true) ⟨rfl, rfl⟩ trivial
  have hmove := run_throwing hcopy (throwsAt .move 0) (.moveAssign false true) ⟨rfl, rfl⟩
    (Or.inr (Or.inr (Or.inl rfl)))
  exact ⟨_, hmove, (runs_survive hmove).1⟩

/-- The move of 8 throws; then `resize(3)` of the source throws at `T()` and keeps two
    elements counted of which one is there. -/
theorem moveThenResize_miscounts : ¬ ∀ (tr : List (Event Bool Nat)) (w : Bool → Obj Nat),
    Run (throwingVectors (fun _ => 3) neverThrows) tr w →
      Survives (fun _ => 3) neverThrows w := by
  intro hall
  have hinit := run_throwing (run_noVectors fun _ _ => True) neverThrows.throws
    (.initConstruct true [7, 8]) ⟨rfl, holds_empty⟩ trivial
  have hdefault := run_throwing hinit neverThrows.throws (.defaultConstruct false)
    ⟨rfl, holds_empty⟩ trivial
  have hmove := run_throwing hdefault (throwsAt .move 1) (.moveAssign false true) ⟨rfl, rfl⟩
    trivial
  obtain ⟨v, j, hnext, hsize, hexact, -⟩ :=
    (hall _ _ hmove.of_restrict).resize (throwsAt .args 2) true 3 rfl rfl
  have hv := congrArg Obj.vec (congrFun hnext true)
  rw [Function.update_self] at hv
  -- place 0 is empty, but `m_size` is 2 + j
  have hempty : v.mBuffer 0 = none := (congrArg (fun u : Vec Nat => u.mBuffer 0) hv).symm
  have hcounted : 0 < v.mSize := by
    rw [hsize]
    exact Nat.lt_of_lt_of_le Nat.two_pos (Nat.le_add_right 2 j)
  have hfull := (hexact 0).mpr hcounted
  rw [hempty] at hfull
  exact absurd hfull Bool.false_ne_true

end FixedCapacityVector
