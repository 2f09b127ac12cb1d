import Mathlib.Data.Finset.Card
import Mathlib.Data.List.Nodup

/-! # Recency lists

    A history is a list of keys, the latest touch first.  `recency h` lists its keys by
    their last touch, each once; `since k h` is the set of keys touched after the last
    touch of `k`.

    * `mem_take_recency_iff` — the LRU law: `k` is among the first `c` keys exactly if
      it was touched and fewer than `c` other keys were touched since;
    * `take_touch_of_mem`, `take_touch_of_not_mem` — how one more touch changes the first
      `c` keys, without looking at the rest. -/

namespace Recency

variable {K : Type} [DecidableEq K]

/-- The keys of a history, by their last touch. -/
def recency : List K → List K
  | [] => []
  | k :: h => k :: (recency h).erase k

/-- The keys touched after the last touch of `k`. -/
def since (k : K) : List K → Finset K
  | [] => ∅
  | k' :: h => if k' = k then ∅ else insert k' (since k h)

theorem recency_nodup (h : List K) : (recency h).Nodup := by
  induction h with
  | nil => exact List.nodup_nil
  | cons k h ih => exact List.nodup_cons.mpr ⟨ih.not_mem_erase, ih.erase k⟩

theorem mem_recency {h : List K} {k : K} : k ∈ recency h ↔ k ∈ h := by
  induction h with
  | nil => exact Iff.rfl
  | cons k' h ih =>
      by_cases hk : k = k'
      · rw [hk]
        exact iff_of_true (List.mem_cons_self ..) (List.mem_cons_self ..)
      · rw [recency, List.mem_cons, List.mem_cons, List.mem_erase_of_ne hk, ih]

/-- The keys in front of `k`. -/
def ahead (k : K) : List K → List K
  | [] => []
  | a :: L => if a = k then [] else a :: ahead k L

theorem ahead_cons_self (k : K) (L : List K) : ahead k (k :: L) = [] := if_pos rfl

theorem ahead_cons_of_ne {k a : K} (h : a ≠ k) (L : List K) :
    ahead k (a :: L) = a :: ahead k L := if_neg h

theorem ahead_sublist (k : K) (L : List K) : (ahead k L).Sublist L := by
  induction L with
  | nil => exact List.Sublist.refl []
  | cons a L ih =>
      by_cases ha : a = k
      · rw [ha, ahead_cons_self]
        exact List.nil_sublist _
      · rw [ahead_cons_of_ne ha]
        exact ih.cons_cons a

/-- Erasing another key does not move `k` past anything. -/
theorem ahead_erase {k k' : K} (hne : k' ≠ k) (L : List K) :
    ahead k (L.erase k') = (ahead k L).erase k' := by
  induction L with
  | nil => rfl
  | cons a L ih =>
      by_cases ha : a = k'
      · rw [ha, List.erase_cons_head, ahead_cons_of_ne hne, List.erase_cons_head]
      · have hbeq : ¬ (a == k') = true := fun h => ha (beq_iff_eq.mp h)
        by_cases hk : a = k
        · rw [List.erase_cons_tail hbeq, hk, ahead_cons_self, ahead_cons_self]
          rfl
        · rw [List.erase_cons_tail hbeq, ahead_cons_of_ne hk, ahead_cons_of_ne hk,
            List.erase_cons_tail hbeq, ih]

/-- What was touched since `k` stands in front of `k`. -/
theorem since_eq_ahead (k : K) (h : List K) : since k h = (ahead k (recency h)).toFinset := by
  induction h with
  | nil => rfl
  | cons k' h ih =>
      by_cases hk : k' = k
      · rw [since, if_pos hk, recency, hk, ahead_cons_self]
        rfl
      · rw [since, if_neg hk, recency, ahead_cons_of_ne hk, ahead_erase hk,
          List.toFinset_cons, ih]
        ext a
        have herase := (ahead_sublist k (recency h)).nodup (recency_nodup h)
        rw [Finset.mem_insert, Finset.mem_insert, List.mem_toFinset, List.mem_toFinset,
          herase.mem_erase_iff]
        by_cases ha : a = k'
        · exact iff_of_true (Or.inl ha) (Or.inl ha)
        · exact or_congr Iff.rfl (iff_and_self.mpr fun _ => ha)

/-- The number of keys in front of `k`. -/
theorem card_since (k : K) (h : List K) :
    (since k h).card = (ahead k (recency h)).length := by
  rw [since_eq_ahead]
  exact List.toFinset_card_of_nodup ((ahead_sublist k _).nodup (recency_nodup h))

/-- Position and membership among the first `c`. -/
theorem mem_take_iff {k : K} (L : List K) (c : Nat) :
    k ∈ L.take c ↔ k ∈ L ∧ (ahead k L).length < c := by
  induction L generalizing c with
  | nil => simp
  | cons a L ih =>
      cases c with
      | zero => simp
      | succ c =>
          by_cases ha : a = k
          · rw [ha, ahead_cons_self]
            exact iff_of_true (List.mem_cons_self ..)
              ⟨List.mem_cons_self .., Nat.succ_pos c⟩
          · have hne : k ≠ a := fun h => ha h.symm
            rw [List.take_succ_cons, List.mem_cons, List.mem_cons, ih, ahead_cons_of_ne ha,
              List.length_cons, or_iff_right hne, or_iff_right hne, Nat.succ_lt_succ_iff]

/-- **The LRU law.** -/
theorem mem_take_recency_iff {k : K} (h : List K) (c : Nat) :
    k ∈ (recency h).take c ↔ k ∈ h ∧ (since k h).card < c := by
  rw [mem_take_iff, mem_recency, card_since]

/-- Touching one of the first `c` keys moves it to the front. -/
theorem take_touch_of_mem {k : K} {L : List K} (c : Nat) (hk : k ∈ L.take c) :
    (k :: L.erase k).take c = k :: (L.take c).erase k := by
  induction L generalizing c with
  | nil => simp at hk
  | cons a L ih =>
      cases c with
      | zero => simp at hk
      | succ c =>
          by_cases ha : a = k
          · rw [ha, List.erase_cons_head, List.take_succ_cons, List.erase_cons_head]
          · have hbeq : ¬ (a == k) = true := fun h => ha (beq_iff_eq.mp h)
            have hmem : k ∈ L.take c := by
              rcases List.mem_cons.mp hk with h | h
              · exact absurd h.symm ha
              · exact h
            have hrest := ih c hmem
            cases c with
            | zero => simp at hmem
            | succ c =>
                rw [List.take_succ_cons, List.cons.injEq] at hrest
                rw [List.erase_cons_tail hbeq, List.take_succ_cons, List.take_succ_cons,
                  List.take_succ_cons, List.erase_cons_tail hbeq, ← hrest.2]

/-- Touching any other key puts it in front of the first `c - 1`. -/
theorem take_touch_of_not_mem {k : K} {L : List K} (c : Nat) (hk : k ∉ L.take (c + 1)) :
    (k :: L.erase k).take (c + 1) = k :: L.take c := by
  induction L generalizing c with
  | nil => rfl
  | cons a L ih =>
      rw [List.take_succ_cons, List.mem_cons, not_or] at hk
      have hbeq : ¬ (a == k) = true := fun h => hk.1 (beq_iff_eq.mp h).symm
      rw [List.erase_cons_tail hbeq, List.take_succ_cons]
      cases c with
      | zero => rfl
      | succ c =>
          have hrest := ih c hk.2
          rw [List.take_succ_cons, List.cons.injEq] at hrest
          rw [List.take_succ_cons, List.take_succ_cons, hrest.2]

end Recency
