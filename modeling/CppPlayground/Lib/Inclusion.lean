import Mathlib.Data.List.Nodup

/-! # Recency lists of two sizes

    A recency list of keys and values, the latest touch first, is touched by moving a key
    to the front and cut to a capacity from the back.  `Includes` relates the lists of two
    capacities that see the same touches, up to those of keys that only the larger list
    still has: the smaller list is a subsequence of the larger one, and all of it until
    it is full. -/

namespace Inclusion

variable {K V : Type} [DecidableEq K]

/-- The list without a key. -/
def without (key : K) (l : List (K × V)) : List (K × V) := l.filter fun e => e.1 ≠ key

/-- The list after a touch. -/
def toFront (key : K) (value : V) (l : List (K × V)) : List (K × V) :=
  (key, value) :: without key l

theorem without_of_not_mem {key : K} {l : List (K × V)} (h : key ∉ l.map Prod.fst) :
    without key l = l := by
  refine List.filter_eq_self.mpr ?_
  intro e he
  exact decide_eq_true fun hk => h (hk ▸ List.mem_map_of_mem he)

theorem map_without (key : K) {l : List (K × V)} (h : (l.map Prod.fst).Nodup) :
    (without key l).map Prod.fst = (l.map Prod.fst).erase key := by
  rw [h.erase_eq_filter, List.filter_map]
  congr 1
  refine List.filter_congr ?_
  intro e _
  simp [bne, beq_eq_decide]

/-- A key occurs at most once. -/
theorem length_without (key : K) {l : List (K × V)} (h : (l.map Prod.fst).Nodup) :
    l.length - 1 ≤ (without key l).length := by
  have := List.le_length_erase (a := key) (l := l.map Prod.fst)
  rwa [← map_without key h, List.length_map, List.length_map] at this

theorem length_without_le (key : K) (l : List (K × V)) :
    (without key l).length ≤ l.length := List.length_filter_le _ _

/-- A list that is not shortened has not lost anything. -/
theorem without_eq_self {key : K} {l : List (K × V)}
    (h : l.length ≤ (without key l).length) : without key l = l :=
  List.filter_sublist.eq_of_length_le h

/-- Without their last elements. -/
theorem dropLast_sublist_dropLast {α : Type} {l₁ l₂ : List α} (h : l₁.Sublist l₂) :
    l₁.dropLast.Sublist l₂.dropLast := by
  have := h.reverse.tail.reverse
  rwa [List.tail_reverse, List.tail_reverse, List.reverse_reverse, List.reverse_reverse]
    at this

/-- What the list of a smaller capacity and that of a larger one have in common. -/
structure Includes (capacity : Nat) (small large : List (K × V)) : Prop where
  sublist : small.Sublist large
  full : small.length < capacity → small = large

variable {c d : Nat} {small large : List (K × V)} {key : K}

omit [DecidableEq K] in
theorem includes_nil (c : Nat) : Includes c ([] : List (K × V)) [] :=
  ⟨List.Sublist.refl _, fun _ => rfl⟩

theorem Includes.without_sublist (h : Includes c small large) (key : K) :
    (without key small).Sublist (without key large) := h.sublist.filter _

/-- Both lists have the key. -/
theorem Includes.touch (h : Includes c small large) (hkeys : (small.map Prod.fst).Nodup)
    (value : V) : Includes c (toFront key value small) (toFront key value large) := by
  refine ⟨(h.without_sublist key).cons_cons _, ?_⟩
  intro hlt
  have hlen := length_without key hkeys
  rw [toFront, List.length_cons] at hlt
  rw [h.full (by omega)]

/-- Only the larger list has the key. -/
theorem Includes.touch_large (h : Includes c small large) (hsmall : key ∉ small.map Prod.fst)
    (hlarge : key ∈ large.map Prod.fst) (value : V) :
    Includes c small (toFront key value large) := by
  constructor
  · have := h.without_sublist key
    rw [without_of_not_mem hsmall] at this
    exact this.cons _
  · intro hlt
    rw [h.full hlt] at hsmall
    exact absurd hlarge hsmall

/-- **An insertion** into both lists, which may evict from either, both or none. -/
theorem Includes.insert (h : Includes c small large) (hcd : c ≤ d)
    (hkeys : (small.map Prod.fst).Nodup) (hsmall : small.length ≤ c)
    (hlarge : large.length ≤ d) (key : K) (value : V) :
    Includes c ((toFront key value small).take c) ((toFront key value large).take d) := by
  have hlen := length_without_le key large
  have hlen' := length_without key hkeys
  by_cases hfull : small.length < c
  · -- the lists are equal and nothing is evicted
    rw [← h.full hfull] at hlen ⊢
    have htouched : (toFront key value small).length ≤ c := by
      rw [toFront, List.length_cons]
      omega
    rw [List.take_of_length_le htouched, List.take_of_length_le (Nat.le_trans htouched hcd)]
    exact ⟨List.Sublist.refl _, fun _ => rfl⟩
  · constructor
    · by_cases hroom : (toFront key value large).length ≤ d
      · rw [List.take_of_length_le hroom]
        exact (List.take_sublist _ _).trans ((h.without_sublist key).cons_cons _)
      · -- the larger list is full and does not have the key, so neither does the smaller
        rw [toFront, List.length_cons] at hroom
        have heq : without key large = large := without_eq_self (by omega)
        have heq' : without key small = small := by
          refine List.filter_eq_self.mpr ?_
          intro e he
          exact List.filter_eq_self.mp heq e (h.sublist.mem he)
        have hlast : ∀ {l : List (K × V)} {n : Nat}, without key l = l → l.length = n →
            (toFront key value l).take n = (toFront key value l).dropLast := by
          intro l n hl hn
          rw [List.dropLast_eq_take, toFront, hl, List.length_cons, hn, Nat.add_sub_cancel]
        rw [hlast heq' (by omega), hlast heq (by omega)]
        exact dropLast_sublist_dropLast ((h.without_sublist key).cons_cons _)
    · intro hlt
      rw [List.length_take, toFront, List.length_cons] at hlt
      omega

end Inclusion
