import Mathlib.Data.Finset.Card
import Mathlib.Data.Nat.ModEq
import CppPlayground.Lib.Storage

/-! # Rings: a queue in circular storage

    Storage of `c` places, read from position `h` on and around the end: element `i` of
    the queue is in place `(h + i) % c`.  Positions may be absolute (they only ever grow,
    and `h` is taken modulo `c`) or already reduced; `HoldsRing.reduce` goes between the
    two. -/

namespace Storage

variable {T : Type} {c h : Nat} {s : Slots T} {x v : T} {xs : List T}

/-- Within one turn, positions are told apart by their place. -/
theorem eq_of_mod_eq {i j : Nat} (hi : i < c) (hj : j < c) (heq : (h + i) % c = (h + j) % c) :
    i = j := by
  have hmod : i % c = j % c := Nat.ModEq.add_left_cancel' h heq
  rwa [Nat.mod_eq_of_lt hi, Nat.mod_eq_of_lt hj] at hmod

/-- Every place is that of some position of the current turn. -/
theorem exists_position (hc : 0 < c) {p : Nat} (hp : p < c) : ∃ i < c, (h + i) % c = p := by
  refine ⟨(p + (c - h % c)) % c, Nat.mod_lt _ hc, ?_⟩
  have hh : h % c < c := Nat.mod_lt h hc
  have hsum : h % c + (p + (c - h % c)) = p + c := by omega
  rw [Nat.add_mod_mod, ← Nat.mod_add_mod, hsum, Nat.add_mod_right, Nat.mod_eq_of_lt hp]

/-- Going to the next place, with a comparison in place of a division. -/
theorem next_mod (hh : h < c) : (if h + 1 = c then 0 else h + 1) = (h + 1) % c := by
  by_cases heq : h + 1 = c
  · rw [if_pos heq, heq, Nat.mod_self]
  · rw [if_neg heq, Nat.mod_eq_of_lt (by omega)]

/-- The same for a jump of less than a turn. -/
theorem jump_mod {n : Nat} (hh : h < c) (hn : n < c) :
    (if c ≤ h + n then h + n - c else h + n) = (h + n) % c := by
  by_cases hle : c ≤ h + n
  · rw [if_pos hle, Nat.mod_eq_sub_mod hle, Nat.mod_eq_of_lt (by omega)]
  · rw [if_neg hle, Nat.mod_eq_of_lt (by omega)]

/-- The ring of `c` places holds the queue `xs`, its front in place `h % c`. -/
structure HoldsRing (c h : Nat) (s : Slots T) (xs : List T) : Prop where
  place : ∀ i < c, s ((h + i) % c) = xs[i]?
  outside : ∀ p, c ≤ p → s p = none
  fits : xs.length ≤ c

theorem holdsRing_empty (c h : Nat) : HoldsRing c h (fun _ => none : Slots T) [] :=
  ⟨fun _ _ => rfl, fun _ _ => rfl, Nat.zero_le c⟩

/-- Absolute and reduced positions. -/
theorem HoldsRing.reduce (hr : HoldsRing c h s xs) : HoldsRing c (h % c) s xs where
  place i hi := by
    rw [Nat.mod_add_mod]
    exact hr.place i hi
  outside := hr.outside
  fits := hr.fits

/-- The places with an object. -/
theorem HoldsRing.isSome_iff (hr : HoldsRing c h s xs) (p : Nat) :
    (s p).isSome ↔ ∃ i < xs.length, (h + i) % c = p := by
  have hfits := hr.fits
  constructor
  · intro hp
    by_cases hpc : c ≤ p
    · rw [hr.outside p hpc] at hp
      exact nomatch hp
    · obtain ⟨i, hi, rfl⟩ := exists_position (h := h) (by omega) (Nat.not_le.mp hpc)
      rw [hr.place i hi] at hp
      exact ⟨i, by simpa using hp, rfl⟩
  · rintro ⟨i, hi, rfl⟩
    rw [hr.place i (by omega), List.getElem?_eq_getElem hi]
    rfl

theorem HoldsRing.front (hr : HoldsRing c h s (x :: xs)) : s (h % c) = some x := by
  have hfits := hr.fits
  exact hr.place 0 (Nat.lt_of_lt_of_le (Nat.succ_pos _) hfits)

/-- A ring without elements. -/
theorem HoldsRing.none_iff (hr : HoldsRing c h s xs) :
    (∀ p, s p = none) ↔ xs = [] := by
  constructor
  · intro hnone
    cases xs with
    | nil => rfl
    | cons x rest =>
        have hfront := hr.front
        rw [hnone] at hfront
        exact nomatch hfront
  · rintro rfl p
    rw [← Option.not_isSome_iff_eq_none, hr.isSome_iff]
    rintro ⟨i, hi, -⟩
    exact Nat.not_lt_zero i hi

/-- The place behind the last element is free unless the ring is full. -/
theorem HoldsRing.behind (hr : HoldsRing c h s xs) (hroom : xs.length < c) :
    s ((h + xs.length) % c) = none := by
  rw [hr.place _ hroom]
  exact List.getElem?_eq_none (Nat.le_refl _)

/-- Constructing behind the last element appends. -/
theorem HoldsRing.push (hr : HoldsRing c h s xs) (hroom : xs.length < c) (v : T) :
    HoldsRing c h (Function.update s ((h + xs.length) % c) (some v)) (xs ++ [v]) where
  place i hi := by
    by_cases heq : i = xs.length
    · subst heq
      rw [Function.update_self, List.getElem?_concat_length]
    · have hne : (h + i) % c ≠ (h + xs.length) % c := fun h' => heq (eq_of_mod_eq hi hroom h')
      rw [Function.update_of_ne hne, hr.place i hi, List.getElem?_append]
      by_cases hlt : i < xs.length
      · rw [if_pos hlt]
      · rw [if_neg hlt, List.getElem?_eq_none (by omega),
          List.getElem?_eq_none (by rw [List.length_singleton]; omega)]
  outside p hp := by
    have hlt : (h + xs.length) % c < c := Nat.mod_lt _ (by omega)
    rw [Function.update_of_ne (by omega)]
    exact hr.outside p hp
  fits := by
    rw [List.length_append, List.length_singleton]
    omega

/-- Destroying the front element removes it. -/
theorem HoldsRing.pop (hr : HoldsRing c h s (x :: xs)) :
    HoldsRing c (h + 1) (Function.update s (h % c) none) xs where
  place i hi := by
    have hfits := hr.fits
    rw [List.length_cons] at hfits
    by_cases hlast : i + 1 = c
    · -- the place of the removed element is now the last one of the turn
      rw [Nat.add_assoc, Nat.add_comm 1 i, hlast, Nat.add_mod_right, Function.update_self,
        List.getElem?_eq_none (by omega)]
    · have hne : (h + 1 + i) % c ≠ h % c := by
        intro heq
        rw [show h + 1 + i = h + (i + 1) by omega] at heq
        have := eq_of_mod_eq (h := h) (i := i + 1) (j := 0) (by omega) (by omega) heq
        omega
      rw [Function.update_of_ne hne, show h + 1 + i = h + (i + 1) by omega,
        hr.place (i + 1) (by omega), List.getElem?_cons_succ]
  outside p hp := by
    have hfits := hr.fits
    rw [List.length_cons] at hfits
    have hlt : h % c < c := Nat.mod_lt _ (by omega)
    rw [Function.update_of_ne (by omega)]
    exact hr.outside p hp
  fits := Nat.le_of_succ_le hr.fits

/-- Overwriting the front element. -/
theorem HoldsRing.setFront (hr : HoldsRing c h s (x :: xs)) (v : T) :
    HoldsRing c h (Function.update s (h % c) (some v)) (v :: xs) where
  place i hi := by
    by_cases heq : i = 0
    · subst heq
      rw [Nat.add_zero, Function.update_self]
      rfl
    · have hne : (h + i) % c ≠ h % c := fun h' =>
        heq (eq_of_mod_eq (h := h) (i := i) (j := 0) hi (by omega) h')
      obtain ⟨k, rfl⟩ : ∃ k, i = k + 1 := ⟨i - 1, by omega⟩
      rw [Function.update_of_ne hne, hr.place _ hi, List.getElem?_cons_succ,
        List.getElem?_cons_succ]
  outside p hp := by
    have hfits := hr.fits
    rw [List.length_cons] at hfits
    have hlt : h % c < c := Nat.mod_lt _ (by omega)
    rw [Function.update_of_ne (by omega)]
    exact hr.outside p hp
  fits := hr.fits

/-- There are as many places with an object as elements. -/
theorem HoldsRing.card_live (hr : HoldsRing c h s xs) :
    ((Finset.range c).filter fun p => (s p).isSome).card = xs.length := by
  have hfits := hr.fits
  have himage : (Finset.range c).filter (fun p => (s p).isSome)
      = (Finset.range xs.length).image fun i => (h + i) % c := by
    ext p
    rw [Finset.mem_filter, Finset.mem_range, hr.isSome_iff, Finset.mem_image]
    constructor
    · rintro ⟨-, i, hi, hp⟩
      exact ⟨i, Finset.mem_range.mpr hi, hp⟩
    · rintro ⟨i, hi, rfl⟩
      have hlt := Finset.mem_range.mp hi
      exact ⟨Nat.mod_lt _ (by omega), i, hlt, rfl⟩
  rw [himage, Finset.card_image_of_injOn, Finset.card_range]
  intro i hi j hj heq
  have hi' := Finset.mem_range.mp hi
  have hj' := Finset.mem_range.mp hj
  exact eq_of_mod_eq (by omega) (by omega) heq

/-- The contents in order are what the places hold. -/
theorem HoldsRing.contents (hr : HoldsRing c h s xs) :
    (List.range xs.length).map (fun i => s ((h + i) % c)) = xs.map some := by
  refine List.ext_getElem (by simp) ?_
  intro i hi _
  have hlt : i < xs.length := by simpa using hi
  have hfits := hr.fits
  rw [List.getElem_map, List.getElem_range, List.getElem_map, hr.place i (by omega),
    List.getElem?_eq_getElem hlt]

/-- The places of one turn are all places. -/
theorem turn_perm (c h : Nat) :
    ((List.range c).map fun i => (h + i) % c).Perm (List.range c) := by
  refine (List.perm_ext_iff_of_nodup ?_ List.nodup_range).mpr ?_
  · refine (List.nodup_map_iff_inj_on List.nodup_range).mpr ?_
    intro i hi j hj heq
    exact eq_of_mod_eq (List.mem_range.mp hi) (List.mem_range.mp hj) heq
  · intro p
    rw [List.mem_map, List.mem_range]
    constructor
    · rintro ⟨i, hi, rfl⟩
      exact Nat.mod_lt _ (Nat.lt_of_le_of_lt (Nat.zero_le i) (List.mem_range.mp hi))
    · intro hp
      obtain ⟨i, hi, heq⟩ := exists_position (h := h) (Nat.lt_of_le_of_lt (Nat.zero_le p) hp) hp
      exact ⟨i, List.mem_range.mpr hi, heq⟩

/-- Reading all places of a list, and perhaps some behind it. -/
theorem filterMap_getElem? (hfits : xs.length ≤ c) :
    (List.range c).filterMap (fun i => xs[i]?) = xs := by
  induction c generalizing xs with
  | zero => exact (List.eq_nil_of_length_eq_zero (Nat.le_zero.mp hfits)).symm
  | succ c ih =>
      rw [List.range_succ_eq_map, List.filterMap_cons, List.filterMap_map]
      cases xs with
      | nil => exact List.filterMap_eq_nil_iff.mpr fun i _ => rfl
      | cons x rest => exact congrArg (x :: ·) (ih (Nat.le_of_succ_le_succ hfits))

/-- What is in the storage, place by place, is the queue in another order. -/
theorem HoldsRing.stored_perm (hr : HoldsRing c h s xs) :
    ((List.range c).filterMap s).Perm xs := by
  have hturn : (List.range c).filterMap (fun i => s ((h + i) % c)) = xs := by
    have hplaces : ∀ i ∈ List.range c, s ((h + i) % c) = xs[i]? :=
      fun i hi => hr.place i (List.mem_range.mp hi)
    rw [List.filterMap_congr hplaces]
    exact filterMap_getElem? hr.fits
  have hperm := (turn_perm c h).filterMap s
  rw [List.filterMap_map] at hperm
  exact hperm.symm.trans (List.Perm.of_eq hturn)

end Storage
