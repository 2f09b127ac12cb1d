import Mathlib.Logic.Basic

/-! # Labelled transition systems: runs, invariants, simulations

    A system is a set of initial states and a labelled step relation.  Every property of
    "all reachable states" or "every finite run" goes through one of two rules proved
    here once: `Run.invariant` (an invariant may mention the labels produced so far) and
    `Simulation.run` (an abstract system follows every run of a concrete one, label by
    label).  A concrete run is found by evaluation, with `run_of_follow`. -/

namespace Transition

variable {σ τ α : Type}

/-- Initial states and labelled steps. -/
structure System (σ α : Type) where
  init : σ → Prop
  step : σ → α → σ → Prop

/-- `Run S as s`: some run from an initial state with the labels `as`, in order, ends
    in `s`. -/
inductive Run (S : System σ α) : List α → σ → Prop where
  | start {s : σ} : S.init s → Run S [] s
  | snoc {as : List α} {a : α} {s s' : σ} :
      Run S as s → S.step s a s' → Run S (as ++ [a]) s'

/-- The states some run ends in. -/
def Reachable (S : System σ α) (s : σ) : Prop := ∃ as, Run S as s

variable {S : System σ α}

/-- **The invariant rule for runs.**  `I` holds at the start and every step of a
    reachable state keeps it, so it holds of every run. -/
theorem Run.invariant {I : List α → σ → Prop} (h0 : ∀ s, S.init s → I [] s)
    (hstep : ∀ as s a s', Run S as s → I as s → S.step s a s' → I (as ++ [a]) s')
    {as : List α} {s : σ} (h : Run S as s) : I as s := by
  induction h with
  | start hi => exact h0 _ hi
  | snoc hr hs ih => exact hstep _ _ _ _ hr ih hs

/-- **The invariant rule for two runs in lockstep**, of systems whose labels have
    something in common. -/
theorem Run.lockstep {β γ : Type} {T : System τ β} {f : α → γ} {g : β → γ}
    {I : List α → List β → σ → τ → Prop} (h0 : ∀ s t, S.init s → T.init t → I [] [] s t)
    (hstep : ∀ as bs s t a b s' t', I as bs s t → S.step s a s' → T.step t b t' →
      f a = g b → I (as ++ [a]) (bs ++ [b]) s' t')
    {as : List α} {bs : List β} {s : σ} {t : τ} (hs : Run S as s) (ht : Run T bs t)
    (hsame : as.map f = bs.map g) : I as bs s t := by
  induction hs generalizing bs t with
  | start hi =>
      cases ht with
      | start hi' => exact h0 _ _ hi hi'
      | snoc _ _ => simp at hsame
  | snoc _ hs ih =>
      cases ht with
      | start _ => simp at hsame
      | snoc hrt ht' =>
          rw [List.map_append, List.map_append] at hsame
          obtain ⟨hbefore, hlast⟩ := List.append_inj' hsame rfl
          exact hstep _ _ _ _ _ _ _ _ (ih hrt hbefore) hs ht' (List.cons.inj hlast).1

/-- Every label of a run was produced by a step from a reachable state. -/
theorem Run.step_of_mem {as : List α} {s : σ} (h : Run S as s) {a : α} (ha : a ∈ as) :
    ∃ s₁ s₂, Reachable S s₁ ∧ S.step s₁ a s₂ := by
  induction h with
  | start _ => exact nomatch ha
  | @snoc as b s s' hr hs ih =>
      rcases List.mem_append.mp ha with hmem | hlast
      · exact ih hmem
      · obtain rfl : a = b := List.mem_singleton.mp hlast
        exact ⟨s, s', ⟨as, hr⟩, hs⟩

/-- The last step of a run. -/
theorem Run.of_concat {as : List α} {a : α} {s' : σ} (h : Run S (as ++ [a]) s') :
    ∃ s, Run S as s ∧ S.step s a s' := by
  generalize hbs : as ++ [a] = bs at h
  cases h with
  | start _ => exact absurd hbs (List.append_ne_nil_of_right_ne_nil _ (List.cons_ne_nil _ _))
  | snoc hr hs =>
      obtain ⟨rfl, hlast⟩ := List.append_inj' hbs rfl
      obtain rfl := (List.cons.inj hlast).1
      exact ⟨_, hr, hs⟩

/-- What an observer sees of the labels of a run, in order. -/
def observed {β : Type} (f : α → Option β) (as : List α) : List β := as.filterMap f

theorem observed_concat {β : Type} (f : α → Option β) (as : List α) (a : α) :
    observed f (as ++ [a]) = observed f as ++ (f a).toList := by
  rw [observed, List.filterMap_append]
  cases h : f a with
  | none => rw [List.filterMap_cons_none h]; rfl
  | some b => rw [List.filterMap_cons_some h]; rfl

/-- An observer who tells two kinds of labels apart sees them in two lists. -/
theorem observed_perm {β : Type} {f g h : α → Option β}
    (hsplit : ∀ a, (g a = f a ∧ h a = none) ∨ (g a = none ∧ h a = f a)) (as : List α) :
    (observed f as).Perm (observed g as ++ observed h as) := by
  have hcons : ∀ (k : α → Option β) a as, observed k (a :: as) = (k a).toList ++ observed k as := by
    intro k a as
    cases hk : k a with
    | none => exact List.filterMap_cons_none hk
    | some b => exact List.filterMap_cons_some hk
  induction as with
  | nil => exact List.Perm.nil
  | cons a as ih =>
      rw [hcons f, hcons g, hcons h]
      rcases hsplit a with ⟨hg, hh⟩ | ⟨hg, hh⟩
      · rw [hg, hh, Option.toList_none, List.nil_append, List.append_assoc]
        exact ih.append_left _
      · rw [hg, hh, Option.toList_none, List.nil_append]
        exact (ih.append_left _).trans (List.perm_append_comm_assoc _ _ _)

/-- The steps of `S` that satisfy a condition on the state before and the label. -/
def System.restrict (S : System σ α) (C : σ → α → Prop) : System σ α where
  init := S.init
  step s a s' := S.step s a s' ∧ C s a

/-- A run of a restricted system is a run of the system. -/
theorem Run.of_restrict {C : σ → α → Prop} {as : List α} {s : σ}
    (h : Run (S.restrict C) as s) : Run S as s := by
  induction h with
  | start hi => exact .start hi
  | snoc _ hs ih => exact .snoc ih hs.1

/-- A condition may be replaced by one that the steps of its runs meet as well. -/
theorem Run.restrict_mono {C D : σ → α → Prop}
    (hCD : ∀ as s a, Run (S.restrict C) as s → C s a → D s a) {as : List α} {s : σ}
    (h : Run (S.restrict C) as s) : Run (S.restrict D) as s := by
  induction h with
  | start hi => exact .start hi
  | snoc hr hs ih => exact .snoc ih ⟨hs.1, hCD _ _ _ hr hs.2⟩

/-- A run whose labels meet the condition in every state is one of the restricted system. -/
theorem Run.restrict_of_labels {C : σ → α → Prop} {as : List α} {s : σ} (h : Run S as s)
    (hC : ∀ a ∈ as, ∀ s, C s a) : Run (S.restrict C) as s := by
  induction h with
  | start hi => exact .start hi
  | @snoc as a s s' _ hs ih =>
      refine .snoc (ih fun b hb => hC b (List.mem_append_left _ hb)) ⟨hs, ?_⟩
      exact hC a (List.mem_append_right _ (List.mem_singleton_self a)) s

/-- Follow the labels by a step function. -/
def follow (next : σ → α → Option σ) (s : σ) : List α → Option σ
  | [] => some s
  | a :: as => (next s a).bind fun s' => follow next s' as

/-- Labels that can be followed are those of a run. -/
theorem run_of_follow {next : σ → α → Option σ}
    (hnext : ∀ s a s', next s a = some s' → S.step s a s') {s s' : σ} (h0 : S.init s)
    {as : List α} (h : follow next s as = some s') : Run S as s' := by
  -- from any state that a run has reached
  have hfrom : ∀ (as before : List α) (s : σ), Run S before s → follow next s as = some s' →
      Run S (before ++ as) s' := by
    intro as
    induction as with
    | nil =>
        intro before s hrun h
        obtain rfl : s = s' := Option.some.inj h
        rwa [List.append_nil]
    | cons a as ih =>
        intro before s hrun h
        obtain ⟨s₁, hs₁, hrest⟩ := Option.bind_eq_some_iff.mp h
        have := ih _ s₁ (.snoc hrun (hnext s a s₁ hs₁)) hrest
        rwa [List.append_assoc] at this
  exact hfrom as [] s (.start h0) h

/-- `R` relates every state of the concrete system to one of the abstract system that
    can do the same steps. -/
structure Simulation (S : System σ α) (A : System τ α) (R : σ → τ → Prop) : Prop where
  init : ∀ s, S.init s → ∃ t, A.init t ∧ R s t
  step : ∀ s t a s', R s t → S.step s a s' → ∃ t', A.step t a t' ∧ R s' t'

/-- **Simulations carry runs over.** -/
theorem Simulation.run {A : System τ α} {R : σ → τ → Prop} (sim : Simulation S A R)
    {as : List α} {s : σ} (h : Run S as s) : ∃ t, Run A as t ∧ R s t := by
  induction h with
  | start hi =>
      obtain ⟨t, ht, hR⟩ := sim.init _ hi
      exact ⟨t, .start ht, hR⟩
  | snoc _ hs ih =>
      obtain ⟨t, ht, hR⟩ := ih
      obtain ⟨t', hst, hR'⟩ := sim.step _ _ _ _ hR hs
      exact ⟨t', .snoc ht hst, hR'⟩

end Transition
