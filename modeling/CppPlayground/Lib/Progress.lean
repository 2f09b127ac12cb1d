import Mathlib.Order.WellFounded
import CppPlayground.Lib.System

/-! # Runs that end, and runs that do not

    A rank in a well-founded order decides what must happen and what can.  If every step
    of a certain kind lowers it, no execution consists of such steps from some point on
    (`Execution.leaves`).  If every state with `P` has such a step that keeps `P` until `Q`
    holds, then `Q` can be reached by them (`leads_to`).  If no step raises it and some
    that happen again and again lower it, until one has `Q`, then one will have `Q`
    (`eventually_of_often`). -/

namespace Transition

variable {σ α ρ : Type} {S : System σ α}

/-- `Path S s as s'`: steps with the labels `as`, in order, lead from `s` to `s'`. -/
inductive Path (S : System σ α) : σ → List α → σ → Prop where
  | refl (s : σ) : Path S s [] s
  | cons {s s' s'' : σ} {a : α} {as : List α} :
      S.step s a s' → Path S s' as s'' → Path S s (a :: as) s''

/-- A path continues a run. -/
theorem Run.path {as bs : List α} {s s' : σ} (h : Run S as s) (hpath : Path S s bs s') :
    Run S (as ++ bs) s' := by
  induction hpath generalizing as with
  | refl s => rwa [List.append_nil]
  | @cons s s' s'' a bs hstep _ ih =>
      have := ih (h.snoc hstep)
      rwa [List.append_assoc] at this

/-- A property that the steps with such labels keep. -/
theorem Path.invariant {allowed : α → Prop} {P : σ → Prop} {as : List α} {s s' : σ}
    (h : Path S s as s') (hallowed : ∀ a ∈ as, allowed a)
    (hstep : ∀ s a s', P s → allowed a → S.step s a s' → P s') (hP : P s) : P s' := by
  induction h with
  | refl s => exact hP
  | cons hs _ ih =>
      have hfirst := hstep _ _ _ hP (hallowed _ (List.mem_cons_self ..)) hs
      exact ih (fun a ha => hallowed a (List.mem_cons_of_mem _ ha)) hfirst

variable [LT ρ] [WellFoundedLT ρ]

/-- **The progress rule.**  Where `Q` does not hold yet, an allowed step keeps `P` and
    lowers the rank, so allowed steps lead to `Q`. -/
theorem leads_to {allowed : α → Prop} {P Q : σ → Prop} (rank : σ → ρ)
    (hstep : ∀ s, P s →
      Q s ∨ ∃ a s', allowed a ∧ S.step s a s' ∧ P s' ∧ rank s' < rank s)
    {s : σ} (hP : P s) :
    ∃ as s', Path S s as s' ∧ (∀ a ∈ as, allowed a) ∧ Q s' := by
  -- by induction on the rank
  induction hr : rank s using WellFoundedLT.induction generalizing s with
  | ind r ih =>
      rcases hstep s hP with hQ | ⟨a, s₁, ha, hs₁, hP₁, hlt⟩
      · exact ⟨[], s, .refl s, fun _ ha => (nomatch ha), hQ⟩
      · obtain ⟨as, s', hpath, hall, hQ⟩ := ih (rank s₁) (hr ▸ hlt) hP₁ rfl
        refine ⟨a :: as, s', .cons hs₁ hpath, ?_, hQ⟩
        intro b hb
        rcases List.mem_cons.mp hb with hba | hmem
        · exact hba ▸ ha
        · exact hall b hmem

/-- An infinite run. -/
structure Execution (S : System σ α) where
  state : Nat → σ
  label : Nat → α
  init : S.init (state 0)
  step : ∀ i, S.step (state i) (label i) (state (i + 1))

/-- Its labels before time `i`. -/
def Execution.trace (e : Execution S) (i : Nat) : List α := (List.range i).map e.label

theorem Execution.trace_succ (e : Execution S) (i : Nat) :
    e.trace (i + 1) = e.trace i ++ [e.label i] := by
  rw [Execution.trace, List.range_succ, List.map_append]
  rfl

/-- Its states are reachable. -/
theorem Execution.run (e : Execution S) (i : Nat) : Run S (e.trace i) (e.state i) := by
  induction i with
  | zero => exact .start e.init
  | succ i ih =>
      rw [e.trace_succ]
      exact ih.snoc (e.step i)

/-- **The termination rule.**  No execution takes, from some point on, only steps that
    lower the rank. -/
theorem Execution.leaves (e : Execution S) (rank : σ → ρ) {lowers : α → Prop}
    (hstep : ∀ as s a s', Run S as s → lowers a → S.step s a s' → rank s' < rank s) (k : Nat) :
    ∃ i, k ≤ i ∧ ¬ lowers (e.label i) := by
  by_contra hnone
  have hlowers : ∀ i, k ≤ i → lowers (e.label i) := by
    intro i hki
    by_contra hi
    exact hnone ⟨i, hki, hi⟩
  -- no rank is that of a state from `k` on
  have hnot : ∀ r i, k ≤ i → rank (e.state i) ≠ r := by
    intro r
    induction r using WellFoundedLT.induction with
    | ind r ih =>
        intro i hki hr
        have hlt := hstep _ _ _ _ (e.run i) (hlowers i hki) (e.step i)
        exact ih _ (hr ▸ hlt) (i + 1) (Nat.le_succ_of_le hki) rfl
  exact hnot _ k (Nat.le_refl k) rfl

/-- Where every reachable state has a step as wanted, there is an execution of them. -/
theorem exists_execution {C : Nat → σ → α → Prop} {s : σ} (hs : S.init s)
    (hnext : ∀ i as s, Run S as s → ∃ a s', S.step s a s' ∧ C i s a) :
    ∃ e : Execution S, ∀ i, C i (e.state i) (e.label i) := by
  choose label next hstep using hnext
  -- the runs so far
  let upTo : Nat → { x : List α × σ // Run S x.1 x.2 } := fun i =>
    Nat.rec ⟨([], s), .start hs⟩ (fun i x =>
      ⟨(x.1.1 ++ [label i _ _ x.2], next i _ _ x.2), x.2.snoc (hstep i _ _ x.2).1⟩) i
  exact ⟨⟨fun i => (upTo i).1.2, fun i => label i _ _ (upTo i).2, hs,
    fun i => (hstep i _ _ (upTo i).2).1⟩, fun i => (hstep i _ _ (upTo i).2).2⟩

/-- Where every state with `P` has a step that keeps `P`, there is an execution within `P`. -/
theorem exists_execution_within {P : σ → Prop} {s : σ} (hs : S.init s) (hP : P s)
    (hnext : ∀ s, P s → ∃ a s', S.step s a s' ∧ P s') :
    ∃ e : Execution S, ∀ i, P (e.state i) := by
  choose label next hstep hkeep using hnext
  let states : Nat → { s : σ // P s } := fun i =>
    Nat.rec ⟨s, hP⟩ (fun _ x => ⟨next x.1 x.2, hkeep x.1 x.2⟩) i
  exact ⟨⟨fun i => (states i).1, fun i => label _ (states i).2, hs,
    fun i => hstep _ (states i).2⟩, fun i => (states i).2⟩

/-! ## What happens again and again -/

/-- It happens again and again. -/
def Often (P : Nat → Prop) : Prop := ∀ i, ∃ j, i ≤ j ∧ P j

/-- **The fairness rule.**  From time `k` on a step has `Q` or does not raise the rank, and
    lowers it if it `helps`, which happens again and again. -/
theorem eventually_of_often {helps Q : Nat → Prop} (rank : Nat → Nat) (k : Nat)
    (hoften : Often helps) (hkeep : ∀ i, k ≤ i → Q i ∨ rank (i + 1) ≤ rank i)
    (hlower : ∀ i, k ≤ i → helps i → Q i ∨ rank (i + 1) < rank i) : ∃ i, k ≤ i ∧ Q i := by
  by_contra hnone
  have hnot : ∀ i, k ≤ i → ¬ Q i := fun i hi hQ => hnone ⟨i, hi, hQ⟩
  have hfalls : ∀ i d, k ≤ i → rank (i + d) ≤ rank i := by
    intro i d hi
    induction d with
    | zero => exact Nat.le_refl _
    | succ d ih =>
        have hid := Nat.le_add_right_of_le (k := d) hi
        exact ((hkeep (i + d) hid).resolve_left (hnot _ hid)).trans ih
  -- no rank is that of a time from `k` on
  have hno : ∀ r i, k ≤ i → rank i ≠ r := by
    intro r
    induction r using Nat.strong_induction_on with
    | h r ih =>
        intro i hi hr
        obtain ⟨j, hij, hj⟩ := hoften i
        obtain ⟨d, rfl⟩ := Nat.exists_eq_add_of_le hij
        have hid := hi.trans hij
        have hlt := (hlower (i + d) hid hj).resolve_left (hnot _ hid)
        exact ih _ (hr ▸ hlt.trans_le (hfalls i d hi)) _ (Nat.le_succ_of_le hid) rfl
  exact hno _ k (Nat.le_refl k) rfl

end Transition
