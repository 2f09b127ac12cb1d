import CppPlayground.Lib.Recency

/-! # Keeping the keys touched last

    A cache with room for `c` keys has to load a key that is touched and that it does not
    hold.  `faults c h` counts the loads of the cache that keeps the `c` keys touched last.
    `Serves d h M n` says that a cache with room for `d` keys, whatever it keeps, drops and
    loads, even if it knows what will be touched, holds `M` after the history `h` and has
    loaded `n` keys.

    `competitive` compares the two: as often as the first one loads `c` keys, the second
    one loads at least `c + 1 - d`.  While the first one loads `c` keys, `c` keys are
    touched other than the one touched before (`min_faultsIn_le`), and the second one holds
    at most `d - 1` of them at the beginning. -/

namespace Paging

open Recency

variable {K : Type} [DecidableEq K] {c d n : Nat} {h seg old : List K} {M : Finset K} {k : K}

/-- How often the key touched was not among the `c` keys touched last. -/
def faults (c : Nat) : List K → Nat
  | [] => 0
  | k :: h => faults c h + if k ∈ (recency h).take c then 0 else 1

/-- What any other cache may do. -/
inductive Serves (d : Nat) : List K → Finset K → Nat → Prop where
  | start : Serves d [] ∅ 0
  | touch {h : List K} {M : Finset K} {n : Nat} (k : K) (N : Finset K) :
      Serves d h M n → k ∈ N → N.card ≤ d → Serves d (k :: h) N (n + (N \ M).card)

/-! ## The other cache -/

/-- It loads what is touched, unless it held it at the beginning. -/
theorem Serves.split (hs : Serves d (seg ++ old) M n) : ∃ M₀ n₀, Serves d old M₀ n₀
    ∧ n₀ + ((seg.toFinset ∪ M) \ M₀).card ≤ n := by
  induction seg generalizing M n with
  | nil =>
      refine ⟨M, n, hs, ?_⟩
      rw [List.toFinset_nil, Finset.empty_union, sdiff_self]
      exact Nat.le_refl n
  | cons k seg ih =>
      cases hs with
      | @touch _ M₁ n₁ _ _ hs hk hcard =>
          obtain ⟨M₀, n₀, hold, hle⟩ := ih hs
          refine ⟨M₀, n₀, hold, ?_⟩
          have hsub : ((k :: seg).toFinset ∪ M) \ M₀
              ⊆ ((seg.toFinset ∪ M₁) \ M₀) ∪ (M \ M₁) := by
            intro x hx
            simp only [List.toFinset_cons, Finset.mem_sdiff, Finset.mem_union,
              Finset.mem_insert] at hx ⊢
            obtain ⟨(rfl | hseg) | hM, hnot⟩ := hx
            · by_cases hM₁ : x ∈ M₁
              · exact Or.inl ⟨Or.inr hM₁, hnot⟩
              · exact Or.inr ⟨hk, hM₁⟩
            · exact Or.inl ⟨Or.inl hseg, hnot⟩
            · by_cases hM₁ : x ∈ M₁
              · exact Or.inl ⟨Or.inr hM₁, hnot⟩
              · exact Or.inr ⟨hM, hM₁⟩
          have hcards := (Finset.card_le_card hsub).trans (Finset.card_union_le _ _)
          omega

/-- It holds the key touched last, and no more keys than there is room for. -/
theorem Serves.holds (hs : Serves d h M n) :
    M.card ≤ d ∧ ∀ k, h.head? = some k → k ∈ M := by
  cases hs with
  | start => exact ⟨Nat.zero_le d, fun k hk => nomatch hk⟩
  | touch k N hs hk hcard => exact ⟨hcard, fun k' hk' => Option.some.inj hk' ▸ hk⟩

/-! ## The cache that keeps the keys touched last -/

/-- Its loads during the touches `seg`, after the history `old`. -/
def faultsIn (c : Nat) (old : List K) : List K → Nat
  | [] => 0
  | k :: seg => faultsIn c old seg + if k ∈ (recency (seg ++ old)).take c then 0 else 1

theorem faults_append (c : Nat) (seg old : List K) :
    faults c (seg ++ old) = faultsIn c old seg + faults c old := by
  induction seg with
  | nil => exact (Nat.zero_add _).symm
  | cons k seg ih =>
      rw [List.cons_append, faults, faultsIn, ih]
      omega

/-- The keys touched, other than the one touched before. -/
def others (old seg : List K) : Finset K := seg.toFinset.filter fun k => old.head? ≠ some k

theorem since_append (hk : k ∈ seg) : since k (seg ++ old) ⊆ seg.toFinset.erase k := by
  induction seg with
  | nil => exact absurd hk List.not_mem_nil
  | cons a seg ih =>
      rw [List.cons_append, since]
      by_cases ha : a = k
      · rw [if_pos ha]
        exact Finset.empty_subset _
      · rw [if_neg ha]
        have hmem : k ∈ seg := (List.mem_cons.mp hk).resolve_left (Ne.symm ha)
        intro x hx
        rcases Finset.mem_insert.mp hx with rfl | hx
        · exact Finset.mem_erase.mpr ⟨ha, List.mem_toFinset.mpr (List.mem_cons_self ..)⟩
        · obtain ⟨hne, hx⟩ := Finset.mem_erase.mp (ih hmem hx)
          refine Finset.mem_erase.mpr ⟨hne, ?_⟩
          rw [List.toFinset_cons]
          exact Finset.mem_insert_of_mem hx

theorem since_last (hk : old.head? = some k) (hnot : k ∉ seg) :
    since k (seg ++ old) = seg.toFinset := by
  induction seg with
  | nil =>
      obtain ⟨rest, rfl⟩ := List.head?_eq_some_iff.mp hk
      exact if_pos rfl
  | cons a seg ih =>
      rw [List.mem_cons, not_or] at hnot
      rw [List.cons_append, since, if_neg (Ne.symm hnot.1), ih hnot.2, List.toFinset_cons]

/-- At most one of the keys touched is not counted. -/
theorem card_le_card_others (old seg : List K) :
    seg.toFinset.card ≤ (others old seg).card + 1 := by
  cases hhead : old.head? with
  | none =>
      have hall : others old seg = seg.toFinset :=
        Finset.filter_true_of_mem fun x _ hx => Option.some_ne_none x (hx.symm.trans hhead)
      rw [hall]
      exact Nat.le_succ _
  | some p =>
      have hsub : seg.toFinset.erase p ⊆ others old seg := by
        intro x hx
        obtain ⟨hne, hseg⟩ := Finset.mem_erase.mp hx
        refine Finset.mem_filter.mpr ⟨hseg, fun hhead' => ?_⟩
        exact hne (Option.some.inj (hhead'.symm.trans hhead))
      have hpred := Finset.pred_card_le_card_erase (s := seg.toFinset) (a := p)
      have hcard := Finset.card_le_card hsub
      omega

/-- A key that is loaded again was left alone while `c` other keys were touched. -/
theorem card_others_of_again (hk : k ∈ seg ∨ old.head? = some k)
    (hfault : k ∉ (recency (seg ++ old)).take c) : c ≤ (others old (k :: seg)).card := by
  have hmem : k ∈ seg ++ old := by
    rcases hk with hk | hk
    · exact List.mem_append_left _ hk
    · exact List.mem_append_right _ (List.mem_of_mem_head? hk)
  have hcard : c ≤ (since k (seg ++ old)).card := by
    by_contra hfew
    exact hfault ((mem_take_recency_iff _ c).mpr ⟨hmem, Nat.not_le.mp hfew⟩)
  by_cases hlast : old.head? = some k
  · -- the key touched before the segment: it is not among the others itself
    have hsub : since k (seg ++ old) ⊆ others old (k :: seg) := by
      intro x hx
      have hx' : x ∈ seg.toFinset ∧ x ≠ k := by
        by_cases hseg : k ∈ seg
        · exact (Finset.mem_erase.mp (since_append hseg hx)).symm
        · rw [since_last hlast hseg] at hx
          exact ⟨hx, fun hxk => hseg (hxk ▸ List.mem_toFinset.mp hx)⟩
      refine Finset.mem_filter.mpr ⟨?_, fun hhead => ?_⟩
      · rw [List.toFinset_cons]
        exact Finset.mem_insert_of_mem hx'.1
      · exact hx'.2 (Option.some.inj (hhead.symm.trans hlast))
    exact hcard.trans (Finset.card_le_card hsub)
  · -- a key of the segment: it makes up for the one that may be excluded
    have hseg : k ∈ seg := hk.resolve_right hlast
    have hk' : k ∉ since k (seg ++ old) := fun hmem =>
      (Finset.mem_erase.mp (since_append hseg hmem)).1 rfl
    have hsub : insert k (since k (seg ++ old)) ⊆ (k :: seg).toFinset := by
      rw [List.toFinset_cons]
      exact Finset.insert_subset_insert k
        ((since_append hseg).trans (Finset.erase_subset _ _))
    have hall := Finset.card_le_card hsub
    rw [Finset.card_insert_of_notMem hk'] at hall
    have hexcluded := card_le_card_others old (k :: seg)
    omega

theorem others_cons (old seg : List K) (k : K) : others old seg ⊆ others old (k :: seg) := by
  refine Finset.filter_subset_filter _ ?_
  rw [List.toFinset_cons]
  exact Finset.subset_insert k _

/-- As long as it loads no more than `c` keys, each load is of another key. -/
theorem min_faultsIn_le (c : Nat) (old seg : List K) :
    min (faultsIn c old seg) c ≤ (others old seg).card := by
  induction seg with
  | nil => exact (Nat.min_le_left _ _).trans (Nat.zero_le _)
  | cons k seg ih =>
      by_cases hhit : k ∈ (recency (seg ++ old)).take c
      · rw [faultsIn, if_pos hhit]
        exact ih.trans (Finset.card_le_card (others_cons old seg k))
      rw [faultsIn, if_neg hhit]
      by_cases hagain : k ∈ seg ∨ old.head? = some k
      · exact (Nat.min_le_right _ _).trans (card_others_of_again hagain hhit)
      · rw [not_or] at hagain
        have hnew : k ∉ others old seg := fun hk =>
          hagain.1 (List.mem_toFinset.mp (Finset.mem_filter.mp hk).1)
        have hsub : insert k (others old seg) ⊆ others old (k :: seg) := by
          refine Finset.insert_subset ?_ (others_cons old seg k)
          exact Finset.mem_filter.mpr
            ⟨List.mem_toFinset.mpr (List.mem_cons_self ..), hagain.2⟩
        have hcard := Finset.card_le_card hsub
        rw [Finset.card_insert_of_notMem hnew] at hcard
        omega

/-! ## The comparison -/

/-- At the beginning the other cache holds at most `d - 1` of the keys to come. -/
theorem Serves.card_held_lt (hs : Serves d old M n) (hd : 0 < d) (seg : List K) :
    (others old seg ∩ M).card < d := by
  cases hhead : old.head? with
  | none =>
      rw [List.head?_eq_none_iff] at hhead
      subst hhead
      cases hs
      rw [Finset.inter_empty]
      exact hd
  | some p =>
      obtain ⟨hcard, hheld⟩ := hs.holds
      have hp : p ∉ others old seg ∩ M := fun hp =>
        (Finset.mem_filter.mp (Finset.mem_inter.mp hp).1).2 hhead
      have hsub : insert p (others old seg ∩ M) ⊆ M :=
        Finset.insert_subset (hheld p hhead) Finset.inter_subset_right
      have hlt := Finset.card_le_card hsub
      rw [Finset.card_insert_of_notMem hp] at hlt
      omega

/-- While the first cache loads `c` keys, the other one loads `c + 1 - d`. -/
theorem Serves.segment (hs : Serves d (seg ++ old) M n) (hd : 0 < d)
    (hfaults : c ≤ faultsIn c old seg) :
    ∃ M₀ n₀, Serves d old M₀ n₀ ∧ n₀ + (c + 1 - d) ≤ n := by
  obtain ⟨M₀, n₀, hold, hle⟩ := hs.split
  refine ⟨M₀, n₀, hold, ?_⟩
  have hothers := min_faultsIn_le c old seg
  rw [Nat.min_eq_right hfaults] at hothers
  have hheld := hold.card_held_lt hd seg
  have hparts := Finset.card_sdiff_add_card_inter (others old seg) M₀
  have hloaded : (others old seg \ M₀).card ≤ ((seg.toFinset ∪ M) \ M₀).card := by
    refine Finset.card_le_card (Finset.sdiff_subset_sdiff ?_ (Finset.Subset.refl M₀))
    exact (Finset.filter_subset _ _).trans Finset.subset_union_left
  omega

/-- The loads go up one by one, so a history can be cut at any number of them. -/
theorem exists_segment {m : Nat} (hm : m ≤ faults c h) :
    ∃ seg old, h = seg ++ old ∧ faults c old = m := by
  induction h with
  | nil => exact ⟨[], [], rfl, (Nat.le_zero.mp hm).symm⟩
  | cons k h ih =>
      by_cases hold : m ≤ faults c h
      · obtain ⟨seg, old, rfl, hcut⟩ := ih hold
        exact ⟨k :: seg, old, rfl, hcut⟩
      · have hstep : faults c (k :: h) ≤ faults c h + 1 := by
          rw [faults]
          split <;> omega
        exact ⟨[], k :: h, rfl, by omega⟩

/-- **The comparison.**  As often as a cache that keeps the `c` keys touched last loads `c`
    of them, any other cache, with room for `d`, loads at least `c + 1 - d`. -/
theorem competitive (hs : Serves d h M n) : faults c h / c * (c + 1 - d) ≤ n := by
  rcases Nat.eq_zero_or_pos d with rfl | hd
  · cases hs with
    | start => rw [faults, Nat.zero_div, Nat.zero_mul]
    | touch k N hs hk hcard =>
        exact absurd (Finset.card_pos.mpr ⟨k, hk⟩) (Nat.not_lt.mpr hcard)
  suffices h : ∀ q h M n, q * c ≤ faults c h → Serves d h M n → q * (c + 1 - d) ≤ n from
    h _ _ M n (Nat.div_mul_le_self _ c) hs
  intro q
  induction q with
  | zero => exact fun h M n _ _ => (Nat.zero_mul _).symm ▸ Nat.zero_le n
  | succ q ih =>
      intro h M n hq hs
      rw [Nat.succ_mul] at hq ⊢
      -- the part of the history in which the first cache loads its last `c` keys
      obtain ⟨seg, old, rfl, hcut⟩ := exists_segment (c := c) (Nat.sub_le (faults c h) c)
      have hsum := faults_append c seg old
      obtain ⟨M₀, n₀, hold, hle⟩ := hs.segment (c := c) hd (by omega)
      have hbefore := ih old M₀ n₀ (by omega) hold
      omega

end Paging
