import Mathlib.Logic.Basic

/-! # Programs with exceptions, undefined behaviour and bounded loops

    A deterministic imperative program over a state `σ` returns, throws, runs into
    undefined behaviour, or exhausts the bound given to one of its loops.  The state
    survives an exception, so what a throwing call leaves behind can be stated.

    * `Prog σ ε α` — the programs, a monad;
    * `wp p Q E s` — TOTAL correctness: run from `s`, `p` returns in `Q` or throws in
      `E`; undefined behaviour and an exhausted loop satisfy no postcondition;
  * `wlp p Q E U s` — the same where undefined behaviour and an exhausted loop are not
    excluded: they leave a state in `U`;
    * `forRange`, `whileLoop` — the two loops, each with its invariant rule;
    * `zoom` — a program on a part of the state;
    * `Maps` — a program follows another one along a map of the states. -/

namespace Program

variable {σ τ ε α β : Type}

/-- How a call ends.  `diverged` marks one that does not: a loop that used up its bound, a
    call that waits, or the end of the whole program. -/
inductive Outcome (ε α : Type) where
  | ok (a : α)
  | threw (e : ε)
  | undefined
  | diverged
  deriving DecidableEq, Repr

/-- A program: from a state to the way it ends and the state it leaves. -/
def Prog (σ ε α : Type) : Type := σ → Outcome ε α × σ

/-- Sequencing: only a returning first part hands over to the second. -/
def Prog.bind (p : Prog σ ε α) (f : α → Prog σ ε β) : Prog σ ε β := fun s =>
  match p s with
  | (.ok a, s') => f a s'
  | (.threw e, s') => (.threw e, s')
  | (.undefined, s') => (.undefined, s')
  | (.diverged, s') => (.diverged, s')

instance : Monad (Prog σ ε) where
  pure a := fun s => (.ok a, s)
  bind := Prog.bind

/-- Throw an exception, leaving the state as it is. -/
def throwing (e : ε) : Prog σ ε α := fun s => (.threw e, s)

/-- An operation whose precondition the language does not check was violated. -/
def undefinedBehaviour : Prog σ ε α := fun s => (.undefined, s)

/-- Read a value off the state. -/
def gets (f : σ → α) : Prog σ ε α := fun s => (.ok (f s), s)

/-- Read a value that has to exist: a dereference. -/
def access (f : σ → Option α) : Prog σ ε α := fun s =>
  match f s with
  | some a => (.ok a, s)
  | none => (.undefined, s)

/-- Update the state. -/
def modify (f : σ → σ) : Prog σ ε Unit := fun s => (.ok (), f s)

/-- Update the state where the update is defined. -/
def change (f : σ → Option σ) : Prog σ ε Unit := fun s =>
  match f s with
  | some s' => (.ok (), s')
  | none => (.undefined, s)

/-- Throw if `fails` names an exception. -/
def attempt (fails : Option ε) : Prog σ ε Unit := fun s =>
  match fails with
  | some e => (.threw e, s)
  | none => (.ok (), s)

/-- `try { p } catch (...) { cleanup; throw; }`. -/
def cleaningUp (cleanup : Prog σ ε Unit) (p : Prog σ ε α) : Prog σ ε α := fun s =>
  match p s with
  | (.threw e, s') => (cleanup.bind fun _ => throwing e) s'
  | (.ok a, s') => (.ok a, s')
  | (.undefined, s') => (.undefined, s')
  | (.diverged, s') => (.diverged, s')

/-- What `noexcept(clause)` makes of an exception: `std::terminate()`. -/
def Outcome.guarded (clause : Bool) : Outcome ε α → Outcome ε α
  | .threw e => if clause then .diverged else .threw e
  | out => out

/-- A function that is `noexcept(clause)`. -/
def noexceptIf (clause : Bool) (p : Prog σ ε α) : Prog σ ε α := fun s =>
  ((p s).1.guarded clause, (p s).2)

/-- `for (i = start; i < start + n; ++i) body(i)`. -/
def forFrom (body : Nat → Prog σ ε Unit) : Nat → Nat → Prog σ ε Unit
  | _, 0 => pure ()
  | i, n + 1 => do
      body i
      forFrom body (i + 1) n

/-- `for (i = 0; i < n; ++i) body(i)`. -/
def forRange (n : Nat) (body : Nat → Prog σ ε Unit) : Prog σ ε Unit :=
  forFrom body 0 n

/-- `while (cond) body`, cut off as `diverged` after `fuel` rounds. -/
def whileLoop (cond : σ → Bool) (body : Prog σ ε Unit) : Nat → Prog σ ε Unit
  | 0 => fun s => if cond s then (.diverged, s) else (.ok (), s)
  | fuel + 1 => fun s =>
      if cond s then (do body; whileLoop cond body fuel) s else (.ok (), s)

/-- Run a program on the part of the state that `get` reads and `put` replaces. -/
def zoom (get : σ → τ) (put : σ → τ → σ) (p : Prog τ ε α) : Prog σ ε α := fun s =>
  ((p (get s)).1, put s (p (get s)).2)

/-! ## Weakest preconditions -/

/-- What a way of ending has to satisfy. -/
def Outcome.Meets (Q : α → Prop) (E : ε → Prop) : Outcome ε α → Prop
  | .ok a => Q a
  | .threw e => E e
  | .undefined => False
  | .diverged => False

/-- Total correctness: from `s` the program returns in `Q` or throws in `E`. -/
def wp (p : Prog σ ε α) (Q : α → σ → Prop) (E : ε → σ → Prop) (s : σ) : Prop :=
  (p s).1.Meets (fun a => Q a (p s).2) (fun e => E e (p s).2)

variable {Q Q' : α → σ → Prop} {E E' : ε → σ → Prop} {s : σ}

@[simp] theorem wp_pure (a : α) : wp (pure a : Prog σ ε α) Q E s ↔ Q a s := Iff.rfl

@[simp] theorem wp_throwing (e : ε) :
    wp (throwing e : Prog σ ε α) Q E s ↔ E e s := Iff.rfl

@[simp] theorem wp_gets (f : σ → α) :
    wp (gets f : Prog σ ε α) Q E s ↔ Q (f s) s := Iff.rfl

@[simp] theorem wp_access (f : σ → Option α) :
    wp (access f : Prog σ ε α) Q E s ↔ ∃ a, f s = some a ∧ Q a s := by
  rw [wp, access]
  cases f s <;> simp [Outcome.Meets]

@[simp] theorem wp_change (f : σ → Option σ) {Q : Unit → σ → Prop} :
    wp (change f : Prog σ ε Unit) Q E s ↔ ∃ s', f s = some s' ∧ Q () s' := by
  rw [wp, change]
  cases f s <;> simp [Outcome.Meets]

@[simp] theorem wp_attempt (fails : Option ε) {Q : Unit → σ → Prop} :
    wp (attempt fails : Prog σ ε Unit) Q E s
      ↔ (∀ e, fails = some e → E e s) ∧ (fails = none → Q () s) := by
  cases fails <;> simp [wp, attempt, Outcome.Meets]

@[simp] theorem wp_modify (f : σ → σ) {Q : Unit → σ → Prop} :
    wp (modify f : Prog σ ε Unit) Q E s ↔ Q () (f s) := Iff.rfl

/-- The rule of sequencing. -/
@[simp] theorem wp_bind (p : Prog σ ε α) (f : α → Prog σ ε β) {R : β → σ → Prop} :
    wp (p >>= f) R E s ↔ wp p (fun a s' => wp (f a) R E s') E s := by
  show wp (Prog.bind p f) R E s ↔ _
  simp only [wp, Prog.bind]
  rcases p s with ⟨o, s'⟩
  cases o <;> rfl

/-- The rule of cleaning up. -/
@[simp] theorem wp_cleaningUp (cleanup : Prog σ ε Unit) (p : Prog σ ε α) :
    wp (cleaningUp cleanup p) Q E s
      ↔ wp p Q (fun e s' => wp cleanup (fun _ s'' => E e s'') E s') s := by
  have hrethrow : ∀ e s', wp (cleanup.bind fun _ => throwing e) Q E s'
      ↔ wp cleanup (fun _ s'' => E e s'') E s' := fun e s' =>
    wp_bind cleanup fun _ => (throwing e : Prog σ ε α)
  simp only [wp, cleaningUp]
  rcases p s with ⟨o, s'⟩
  cases o with
  | ok a => rfl
  | threw e => exact hrethrow e s'
  | undefined => rfl
  | diverged => rfl

/-- The rule of consequence. -/
theorem wp_mono {p : Prog σ ε α} (h : wp p Q E s) (hQ : ∀ a s', Q a s' → Q' a s')
    (hE : ∀ e s', E e s' → E' e s') : wp p Q' E' s := by
  rw [wp] at h ⊢
  revert h
  rcases p s with ⟨o, s'⟩
  cases o with
  | ok a => exact hQ a s'
  | threw e => exact hE e s'
  | undefined => exact id
  | diverged => exact id

/-- A conditional is verified branch by branch. -/
@[simp] theorem wp_ite (c : Prop) [Decidable c] (p q : Prog σ ε α) :
    wp (if c then p else q) Q E s ↔ (c → wp p Q E s) ∧ (¬ c → wp q Q E s) := by
  by_cases hc : c
  · simp [hc]
  · simp [hc]

/-- The frame rule of `zoom`: the part is verified on its own, the rest is `put` back
    around it. -/
@[simp] theorem wp_zoom (get : σ → τ) (put : σ → τ → σ) (p : Prog τ ε α) :
    wp (zoom get put p) Q E s
      ↔ wp p (fun a t => Q a (put s t)) (fun e t => E e (put s t)) (get s) := Iff.rfl

/-- What total correctness says about one run: it returned in `Q` or threw in `E`. -/
theorem wp_cases {p : Prog σ ε α} (h : wp p Q E s) :
    (∃ a, (p s).1 = .ok a ∧ Q a (p s).2) ∨ (∃ e, (p s).1 = .threw e ∧ E e (p s).2) := by
  rw [wp] at h
  cases ho : (p s).1 with
  | ok a => rw [ho] at h; exact Or.inl ⟨a, rfl, h⟩
  | threw e => rw [ho] at h; exact Or.inr ⟨e, rfl, h⟩
  | undefined => rw [ho] at h; exact h.elim
  | diverged => rw [ho] at h; exact h.elim

/-- A program that cannot throw returns. -/
theorem wp_returns {p : Prog σ ε α} (h : wp p Q E s) (hE : ∀ e s', ¬ E e s') :
    ∃ a s', p s = (.ok a, s') ∧ Q a s' := by
  rcases wp_cases h with ⟨a, ho, hq⟩ | ⟨e, _, he⟩
  · exact ⟨a, (p s).2, Prod.ext ho rfl, hq⟩
  · exact absurd he (hE e _)

/-- A program that cannot return throws. -/
theorem wp_threw {p : Prog σ ε α} (h : wp p (fun _ _ => False) E s) :
    ∃ e, (p s).1 = .threw e ∧ E e (p s).2 := by
  rcases wp_cases h with ⟨_, _, hf⟩ | hthrew
  · exact hf.elim
  · exact hthrew

/-- What holds of the state however the program ends. -/
theorem wp_state {p : Prog σ ε α} {R : σ → Prop} (h : wp p (fun _ => R) (fun _ => R) s) :
    R (p s).2 := by
  rcases wp_cases h with ⟨_, -, hr⟩ | ⟨_, -, hr⟩ <;> exact hr

/-- What total correctness says about a run that threw. -/
theorem wp_of_threw {p : Prog σ ε α} {e : ε} (h : wp p Q E s) (hthrew : (p s).1 = .threw e) :
    E e (p s).2 := by
  rw [wp, hthrew] at h
  exact h

/-- A sequence returns exactly if both parts do. -/
theorem bind_ok_iff {p : Prog σ ε α} {f : α → Prog σ ε β} {b : β} {s s' : σ} :
    (p >>= f) s = (.ok b, s') ↔ ∃ a s₁, p s = (.ok a, s₁) ∧ f a s₁ = (.ok b, s') := by
  show Prog.bind p f s = _ ↔ _
  rw [Prog.bind]
  rcases p s with ⟨out, s₁⟩
  cases out with
  | ok a =>
      constructor
      · exact fun h => ⟨a, s₁, rfl, h⟩
      · rintro ⟨_, _, ⟨⟩, h⟩
        exact h
  | threw e => exact ⟨nofun, nofun⟩
  | undefined => exact ⟨nofun, nofun⟩
  | diverged => exact ⟨nofun, nofun⟩

/-- After a part that returned, the rest runs. -/
theorem bind_of_ok {p : Prog σ ε α} {f : α → Prog σ ε β} {a : α} {s s' : σ}
    (h : p s = (.ok a, s')) : (p >>= f) s = f a s' := by
  show Prog.bind p f s = _
  rw [Prog.bind, h]

/-- After a part that threw, nothing runs. -/
theorem bind_of_threw {p : Prog σ ε α} {f : α → Prog σ ε β} {e : ε} {s s' : σ}
    (h : p s = (.threw e, s')) : (p >>= f) s = (.threw e, s') := by
  show Prog.bind p f s = _
  rw [Prog.bind, h]

/-- After undefined behaviour nothing can be said any more. -/
theorem bind_of_undefined {p : Prog σ ε α} {f : α → Prog σ ε β} {s s' : σ}
    (h : p s = (.undefined, s')) : (p >>= f) s = (.undefined, s') := by
  show Prog.bind p f s = _
  rw [Prog.bind, h]

/-- After a part that does not return, nothing runs. -/
theorem bind_of_diverged {p : Prog σ ε α} {f : α → Prog σ ε β} {s s' : σ}
    (h : p s = (.diverged, s')) : (p >>= f) s = (.diverged, s') := by
  show Prog.bind p f s = _
  rw [Prog.bind, h]

/-- A part that returns, and then undefined behaviour. -/
theorem bind_undefined {p : Prog σ ε α} {f : α → Prog σ ε β}
    (hp : wp p Q (fun _ _ => False) s) (hf : ∀ a s', Q a s' → (f a s').1 = .undefined) :
    ((p >>= f) s).1 = .undefined := by
  obtain ⟨a, s', hrun, hq⟩ := wp_returns hp (fun _ _ he => he)
  rw [bind_of_ok hrun]
  exact hf a s' hq

theorem pure_ok_iff {a b : α} {s s' : σ} :
    (pure a : Prog σ ε α) s = (.ok b, s') ↔ a = b ∧ s = s' := by
  show (Outcome.ok a, s) = _ ↔ _
  simp

theorem access_ok_iff {f : σ → Option α} {a : α} {s s' : σ} :
    (access f : Prog σ ε α) s = (.ok a, s') ↔ f s = some a ∧ s = s' := by
  rw [access]
  cases f s <;> simp

theorem change_of_some {f : σ → Option σ} {s s' : σ} (h : f s = some s') :
    (change f : Prog σ ε Unit) s = (.ok (), s') := by
  rw [change, h]

theorem change_of_none {f : σ → Option σ} {s : σ} (h : f s = none) :
    (change f : Prog σ ε Unit) s = (.undefined, s) := by
  rw [change, h]

theorem attempt_ok_iff {fails : Option ε} {s s' : σ} :
    (attempt fails : Prog σ ε Unit) s = (.ok (), s') ↔ fails = none ∧ s = s' := by
  cases fails <;> simp [attempt]

/-! ## `noexcept` -/

theorem guarded_ok_iff {clause : Bool} {out : Outcome ε α} {a : α} :
    out.guarded clause = .ok a ↔ out = .ok a := by
  cases out <;> cases clause <;> simp [Outcome.guarded]

theorem guarded_threw {clause : Bool} {e : ε}
    (h : (Outcome.threw e : Outcome ε α).guarded clause ≠ .diverged) :
    (Outcome.threw e : Outcome ε α).guarded clause = .threw e := by
  cases clause with
  | true => exact absurd rfl h
  | false => rfl

theorem noexceptIf_eq {p : Prog σ ε α} {clause : Bool} {out : Outcome ε α} {s s' : σ}
    (h : p s = (out, s')) : noexceptIf clause p s = (out.guarded clause, s') := by
  rw [noexceptIf, h]

/-- The clause matters only to exceptions. -/
theorem noexceptIf_of_ok {p : Prog σ ε α} {clause : Bool} {a : α} {s s' : σ}
    (h : p s = (.ok a, s')) : noexceptIf clause p s = (.ok a, s') := noexceptIf_eq h

/-! ## Programs that do not throw -/

/-- No run of the program throws. -/
def NeverThrows (p : Prog σ ε α) : Prop := ∀ s e, (p s).1 ≠ .threw e

theorem neverThrows_pure (a : α) : NeverThrows (pure a : Prog σ ε α) := by
  rintro s e ⟨⟩

theorem neverThrows_modify (f : σ → σ) : NeverThrows (modify f : Prog σ ε Unit) := by
  rintro s e ⟨⟩

theorem neverThrows_access (f : σ → Option α) : NeverThrows (access f : Prog σ ε α) := by
  intro s e
  rw [access]
  cases f s <;> simp

theorem neverThrows_change (f : σ → Option σ) : NeverThrows (change f : Prog σ ε Unit) := by
  intro s e
  rw [change]
  cases f s <;> simp

/-- A sequence throws in its first part, or in its second. -/
theorem bind_threw_iff {p : Prog σ ε α} {f : α → Prog σ ε β} {e : ε} {s s' : σ} :
    (p >>= f) s = (.threw e, s') ↔ p s = (.threw e, s')
      ∨ ∃ a s₁, p s = (.ok a, s₁) ∧ f a s₁ = (.threw e, s') := by
  show Prog.bind p f s = _ ↔ _
  rw [Prog.bind]
  rcases p s with ⟨out, s₁⟩
  cases out with
  | ok a =>
      constructor
      · exact fun h => Or.inr ⟨a, s₁, rfl, h⟩
      · rintro (hthrew | ⟨_, _, ⟨⟩, h⟩)
        · exact absurd (congrArg Prod.fst hthrew) (by simp)
        · exact h
  | threw e' => simp
  | undefined => simp
  | diverged => simp

theorem NeverThrows.bind {p : Prog σ ε α} {f : α → Prog σ ε β} (hp : NeverThrows p)
    (hf : ∀ a, NeverThrows (f a)) : NeverThrows (p >>= f) := by
  intro s e hthrew
  rcases bind_threw_iff.mp (Prod.ext hthrew rfl) with hfirst | ⟨a, s₁, -, hsecond⟩
  · exact hp s e (congrArg Prod.fst hfirst)
  · exact hf a s₁ e (congrArg Prod.fst hsecond)

/-- The first part does not throw. -/
theorem NeverThrows.threw_second {p : Prog σ ε α} {f : α → Prog σ ε β} {e : ε} {s s' : σ}
    (hp : NeverThrows p) (h : (p >>= f) s = (.threw e, s')) :
    ∃ a s₁, p s = (.ok a, s₁) ∧ f a s₁ = (.threw e, s') := by
  rcases bind_threw_iff.mp h with hfirst | hsecond
  · exact absurd (congrArg Prod.fst hfirst) (hp s e)
  · exact hsecond

/-- The second part does not throw. -/
theorem threw_first {p : Prog σ ε α} {f : α → Prog σ ε β} {e : ε} {s s' : σ}
    (hf : ∀ a, NeverThrows (f a)) (h : (p >>= f) s = (.threw e, s')) : p s = (.threw e, s') := by
  rcases bind_threw_iff.mp h with hfirst | ⟨a, s₁, -, hsecond⟩
  · exact hfirst
  · exact absurd (congrArg Prod.fst hsecond) (hf a s₁ e)

/-! ## Loops -/

/-- The invariant rule of the counted loop, from an arbitrary start. -/
theorem wp_forFrom {body : Nat → Prog σ ε Unit} (I : Nat → σ → Prop) {last : Nat}
    (hbody : ∀ i s, i < last → I i s → wp (body i) (fun _ s' => I (i + 1) s') E s) :
    ∀ (n i : Nat) (s : σ), i + n = last → I i s →
      wp (forFrom body i n) (fun _ s' => I last s') E s := by
  intro n
  induction n with
  | zero =>
      intro i s hi hI
      obtain rfl : i = last := by omega
      exact hI
  | succ n ih =>
      intro i s hi hI
      rw [forFrom, wp_bind]
      refine wp_mono (hbody i s (by omega) hI) ?_ (fun _ _ h => h)
      intro _ s' hI'
      exact ih (i + 1) s' (by omega) hI'

/-- **The invariant rule of the counted loop.** -/
theorem wp_forRange {body : Nat → Prog σ ε Unit} (I : Nat → σ → Prop) {n : Nat}
    (hbody : ∀ i s, i < n → I i s → wp (body i) (fun _ s' => I (i + 1) s') E s)
    (h0 : I 0 s) : wp (forRange n body) (fun _ s' => I n s') E s :=
  wp_forFrom I hbody n 0 s (Nat.zero_add n) h0

/-- **The invariant rule of the conditional loop.**  A measure that every round
    decreases bounds the rounds, so enough fuel excludes `diverged`. -/
theorem wp_whileLoop {cond : σ → Bool} {body : Prog σ ε Unit} (I : σ → Prop)
    (measure : σ → Nat)
    (hbody : ∀ s, cond s = true → I s →
      wp body (fun _ s' => I s' ∧ measure s' < measure s) E s) :
    ∀ (fuel : Nat) (s : σ), measure s < fuel → I s →
      wp (whileLoop cond body fuel) (fun _ s' => I s' ∧ cond s' = false) E s := by
  intro fuel
  induction fuel with
  | zero => intro s hm _; exact absurd hm (Nat.not_lt_zero _)
  | succ fuel ih =>
      intro s hm hI
      cases hc : cond s with
      | false =>
          have hstop : whileLoop cond body (fuel + 1) s = (.ok (), s) := by
            simp [whileLoop, hc]
          rw [wp, hstop]
          exact ⟨hI, hc⟩
      | true =>
          have hround : whileLoop cond body (fuel + 1) s
              = (do body; whileLoop cond body fuel) s := by
            simp [whileLoop, hc]
          have hrest : wp (do body; whileLoop cond body fuel)
              (fun _ s' => I s' ∧ cond s' = false) E s := by
            rw [wp_bind]
            refine wp_mono (hbody s hc hI) ?_ (fun _ _ h => h)
            rintro _ s' ⟨hI', hlt⟩
            exact ih s' (by omega) hI'
          rw [wp] at hrest ⊢
          rw [hround]
          exact hrest

theorem neverThrows_forFrom {body : Nat → Prog σ ε Unit} (hbody : ∀ i, NeverThrows (body i)) :
    ∀ n i, NeverThrows (forFrom body i n) := by
  intro n
  induction n with
  | zero => exact fun i => neverThrows_pure ()
  | succ n ih => exact fun i => (hbody i).bind fun _ => ih (i + 1)

theorem neverThrows_forRange {body : Nat → Prog σ ε Unit} (n : Nat)
    (hbody : ∀ i, NeverThrows (body i)) : NeverThrows (forRange n body) :=
  neverThrows_forFrom hbody n 0

/-! ## Weakest liberal preconditions -/

section Liberal

variable {U U' : σ → Prop}

/-- What a way of ending has to satisfy if no way is excluded. -/
def Outcome.Allows (Q : α → Prop) (E : ε → Prop) (U : Prop) : Outcome ε α → Prop
  | .ok a => Q a
  | .threw e => E e
  | .undefined => U
  | .diverged => U

/-- From `s` the program returns in `Q`, throws in `E` or stops otherwise in `U`. -/
def wlp (p : Prog σ ε α) (Q : α → σ → Prop) (E : ε → σ → Prop) (U : σ → Prop) (s : σ) : Prop :=
  (p s).1.Allows (fun a => Q a (p s).2) (fun e => E e (p s).2) (U (p s).2)

@[simp] theorem wlp_pure (a : α) : wlp (pure a : Prog σ ε α) Q E U s ↔ Q a s := Iff.rfl

@[simp] theorem wlp_throwing (e : ε) : wlp (throwing e : Prog σ ε α) Q E U s ↔ E e s := Iff.rfl

@[simp] theorem wlp_gets (f : σ → α) : wlp (gets f : Prog σ ε α) Q E U s ↔ Q (f s) s := Iff.rfl

@[simp] theorem wlp_modify (f : σ → σ) {Q : Unit → σ → Prop} :
    wlp (modify f : Prog σ ε Unit) Q E U s ↔ Q () (f s) := Iff.rfl

@[simp] theorem wlp_bind (p : Prog σ ε α) (f : α → Prog σ ε β) {R : β → σ → Prop} :
    wlp (p >>= f) R E U s ↔ wlp p (fun a s' => wlp (f a) R E U s') E U s := by
  show wlp (Prog.bind p f) R E U s ↔ _
  simp only [wlp, Prog.bind]
  rcases p s with ⟨o, s'⟩
  cases o <;> rfl

@[simp] theorem wlp_ite (c : Prop) [Decidable c] (p q : Prog σ ε α) :
    wlp (if c then p else q) Q E U s ↔ (c → wlp p Q E U s) ∧ (¬ c → wlp q Q E U s) := by
  by_cases hc : c
  · simp [hc]
  · simp [hc]

@[simp] theorem wlp_zoom (get : σ → τ) (put : σ → τ → σ) (p : Prog τ ε α) :
    wlp (zoom get put p) Q E U s
      ↔ wlp p (fun a t => Q a (put s t)) (fun e t => E e (put s t)) (fun t => U (put s t))
        (get s) := Iff.rfl

theorem wlp_mono {p : Prog σ ε α} (h : wlp p Q E U s) (hQ : ∀ a s', Q a s' → Q' a s')
    (hE : ∀ e s', E e s' → E' e s') (hU : ∀ s', U s' → U' s') : wlp p Q' E' U' s := by
  rw [wlp] at h ⊢
  revert h
  rcases p s with ⟨o, s'⟩
  cases o with
  | ok a => exact hQ a s'
  | threw e => exact hE e s'
  | undefined => exact hU s'
  | diverged => exact hU s'

/-- What holds of the state however the program stops. -/
theorem wlp_state {p : Prog σ ε α} {R : σ → Prop} (h : wlp p (fun _ => R) (fun _ => R) R s) :
    R (p s).2 := by
  rw [wlp] at h
  cases ho : (p s).1 <;> rw [ho] at h <;> exact h

/-- What holds if the program throws. -/
theorem wlp_of_threw {p : Prog σ ε α} {e : ε} (h : wlp p Q E U s) (hthrew : (p s).1 = .threw e) :
    E e (p s).2 := by
  rw [wlp, hthrew] at h
  exact h

/-- A program that does not throw, where all states will do. -/
theorem NeverThrows.wlp {p : Prog σ ε α} (hp : NeverThrows p) (hQ : ∀ a s', Q a s')
    (hU : ∀ s', U s') : wlp p Q E U s := by
  rw [Program.wlp]
  cases ho : (p s).1 with
  | ok a => exact hQ a _
  | threw e => exact absurd ho (hp s e)
  | undefined => exact hU _
  | diverged => exact hU _

theorem wlp_forFrom {body : Nat → Prog σ ε Unit} (I : Nat → σ → Prop) {last : Nat}
    (hbody : ∀ i s, i < last → I i s → wlp (body i) (fun _ s' => I (i + 1) s') E U s) :
    ∀ (n i : Nat) (s : σ), i + n = last → I i s →
      wlp (forFrom body i n) (fun _ s' => I last s') E U s := by
  intro n
  induction n with
  | zero =>
      intro i s hi hI
      obtain rfl : i = last := by omega
      exact hI
  | succ n ih =>
      intro i s hi hI
      rw [forFrom, wlp_bind]
      refine wlp_mono (hbody i s (by omega) hI) ?_ (fun _ _ h => h) (fun _ h => h)
      intro _ s' hI'
      exact ih (i + 1) s' (by omega) hI'

/-- The invariant rule of the counted loop. -/
theorem wlp_forRange {body : Nat → Prog σ ε Unit} (I : Nat → σ → Prop) {n : Nat}
    (hbody : ∀ i s, i < n → I i s → wlp (body i) (fun _ s' => I (i + 1) s') E U s)
    (h0 : I 0 s) : wlp (forRange n body) (fun _ s' => I n s') E U s :=
  wlp_forFrom I hbody n 0 s (Nat.zero_add n) h0

/-- The invariant rule of the conditional loop; it need not end. -/
theorem wlp_whileLoop {cond : σ → Bool} {body : Prog σ ε Unit} {I : σ → Prop}
    (hbody : ∀ s, cond s = true → I s → wlp body (fun _ => I) E I s) :
    ∀ (fuel : Nat) (s : σ), I s → wlp (whileLoop cond body fuel) (fun _ => I) E I s := by
  intro fuel
  induction fuel with
  | zero =>
      intro s hI
      cases hc : cond s <;> simp [wlp, whileLoop, hc, Outcome.Allows, hI]
  | succ fuel ih =>
      intro s hI
      cases hc : cond s with
      | false =>
          have hstop : whileLoop cond body (fuel + 1) s = (.ok (), s) := by
            simp [whileLoop, hc]
          rw [wlp, hstop]
          exact hI
      | true =>
          have hround : whileLoop cond body (fuel + 1) s
              = (do body; whileLoop cond body fuel) s := by
            simp [whileLoop, hc]
          have hrest : wlp (do body; whileLoop cond body fuel) (fun _ => I) E I s := by
            rw [wlp_bind]
            exact wlp_mono (hbody s hc hI) (fun _ s' hI' => ih s' hI') (fun _ _ h => h)
              (fun _ h => h)
          rw [wlp] at hrest ⊢
          rw [hround]
          exact hrest

end Liberal

/-! ## Programs along a map of the states -/

section Along

variable {α' β' : Type} {f : σ → τ} {g : α → α'}

/-- A result, seen through a map. -/
def Outcome.map (g : α → β) : Outcome ε α → Outcome ε β
  | .ok a => .ok (g a)
  | .threw e => .threw e
  | .undefined => .undefined
  | .diverged => .diverged

/-- `p'` does from the image of a state what `p` does from the state. -/
def Maps (f : σ → τ) (g : α → α') (p : Prog σ ε α) (p' : Prog τ ε α') : Prop :=
  ∀ s, p' (f s) = ((p s).1.map g, f (p s).2)

theorem maps_pure (f : σ → τ) (g : α → α') (a : α) :
    Maps f g (pure a : Prog σ ε α) (pure (g a)) := fun _ => rfl

/-- The same result. -/
theorem maps_pure_id (f : σ → τ) (a : α) :
    Maps f id (pure a : Prog σ ε α) (pure a) := fun _ => rfl

theorem maps_throwing (f : σ → τ) (g : α → α') (e : ε) :
    Maps f g (throwing e : Prog σ ε α) (throwing e) := fun _ => rfl

theorem maps_undefined (f : σ → τ) (g : α → α') :
    Maps f g (undefinedBehaviour : Prog σ ε α) undefinedBehaviour := fun _ => rfl

theorem maps_gets {get : σ → α} {get' : τ → α'} (h : ∀ s, get' (f s) = g (get s)) :
    Maps f g (gets get : Prog σ ε α) (gets get') := by
  intro s
  show (Outcome.ok (get' (f s)), f s) = (Outcome.ok (g (get s)), f s)
  rw [h]

theorem maps_modify {update : σ → σ} {update' : τ → τ} (h : ∀ s, update' (f s) = f (update s)) :
    Maps f id (modify update : Prog σ ε Unit) (modify update') := by
  intro s
  show (Outcome.ok (), update' (f s)) = (Outcome.ok (), f (update s))
  rw [h]

/-- Sequences follow part by part. -/
theorem Maps.bind {p : Prog σ ε α} {p' : Prog τ ε α'} {k : α → Prog σ ε β}
    {k' : α' → Prog τ ε β'} {h : β → β'} (hp : Maps f g p p')
    (hk : ∀ a, Maps f h (k a) (k' (g a))) : Maps f h (p >>= k) (p' >>= k') := by
  intro s
  show Prog.bind p' k' (f s) = ((Prog.bind p k s).1.map h, f (Prog.bind p k s).2)
  rw [Prog.bind, Prog.bind, hp s]
  rcases p s with ⟨out, s'⟩
  cases out with
  | ok a => exact hk a s'
  | threw e => rfl
  | undefined => rfl
  | diverged => rfl

theorem Maps.ite {c : Prop} [Decidable c] {p q : Prog σ ε α} {p' q' : Prog τ ε α'}
    (hp : Maps f g p p') (hq : Maps f g q q') :
    Maps f g (if c then p else q) (if c then p' else q') := by
  by_cases hc : c
  · rw [if_pos hc, if_pos hc]
    exact hp
  · rw [if_neg hc, if_neg hc]
    exact hq

/-- Loops follow round by round. -/
theorem Maps.whileLoop {cond : σ → Bool} {cond' : τ → Bool} {body : Prog σ ε Unit}
    {body' : Prog τ ε Unit} (hcond : ∀ s, cond' (f s) = cond s) (hbody : Maps f id body body') :
    ∀ fuel, Maps f id (whileLoop cond body fuel) (whileLoop cond' body' fuel) := by
  intro fuel
  induction fuel with
  | zero =>
      intro s
      cases hc : cond s <;> simp [Program.whileLoop, hcond, hc, Outcome.map]
  | succ fuel ih =>
      intro s
      cases hc : cond s with
      | false => simp [Program.whileLoop, hcond, hc, Outcome.map]
      | true =>
          have hround : Maps f id (do body; Program.whileLoop cond body fuel)
              (do body'; Program.whileLoop cond' body' fuel) := Maps.bind hbody fun _ => ih
          simpa [Program.whileLoop, hcond, hc] using hround s

/-- A part of the state and its image are the images of each other. -/
theorem Maps.zoom {ρ ω : Type} {get : σ → ρ} {put : σ → ρ → σ} {get' : τ → ω} {put' : τ → ω → τ}
    {r : ρ → ω} {p : Prog ρ ε α} {p' : Prog ω ε α'} (hget : ∀ s, get' (f s) = r (get s))
    (hput : ∀ s x, put' (f s) (r x) = f (put s x)) (hp : Maps r g p p') :
    Maps f g (zoom get put p) (zoom get' put' p') := by
  intro s
  show ((p' (get' (f s))).1, put' (f s) (p' (get' (f s))).2)
    = ((p (get s)).1.map g, f (put s (p (get s)).2))
  rw [hget, hp, hput]

end Along

end Program
