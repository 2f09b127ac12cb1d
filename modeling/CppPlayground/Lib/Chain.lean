import Mathlib.Data.List.Nodup

/-! # Null-terminated chains

    `Chain next null h xs`: following `next` from `h` visits `xs` in order and ends in
    `null`.  A chain depends on the links of its own members only (`Chain.congr`), is
    determined by its start (`Chain.unique`), contains the chain of each member
    (`Chain.suffix`), and so cannot visit a member twice (`Chain.nodup`). -/

namespace LinkedList

variable {A : Type} {next next' : A → A} {null h : A} {xs ys : List A}

/-- Following `next` from `h` visits `xs` and ends in `null`. -/
def Chain (next : A → A) (null : A) : A → List A → Prop
  | h, [] => h = null
  | h, a :: as => h = a ∧ a ≠ null ∧ Chain next null (next a) as

/-- Only the links of the members matter. -/
theorem Chain.congr (hc : Chain next null h xs) (heq : ∀ a ∈ xs, next' a = next a) :
    Chain next' null h xs := by
  induction xs generalizing h with
  | nil => exact hc
  | cons a as ih =>
      refine ⟨hc.1, hc.2.1, ?_⟩
      rw [heq a (List.mem_cons_self ..)]
      exact ih hc.2.2 fun b hb => heq b (List.mem_cons_of_mem a hb)

/-- The start determines the chain. -/
theorem Chain.unique (hx : Chain next null h xs) (hy : Chain next null h ys) : xs = ys := by
  induction xs generalizing h ys with
  | nil =>
      cases ys with
      | nil => rfl
      | cons b bs => exact absurd (hy.1.symm.trans hx) hy.2.1
  | cons a as ih =>
      cases ys with
      | nil => exact absurd (hx.1.symm.trans hy) hx.2.1
      | cons b bs =>
          obtain rfl : a = b := hx.1.symm.trans hy.1
          rw [ih hx.2.2 hy.2.2]

/-- The members determine the start. -/
theorem Chain.start_unique {h' : A} (hx : Chain next null h xs) (hy : Chain next' null h' xs) :
    h = h' := by
  cases xs with
  | nil => exact hx.trans hy.symm
  | cons a as => exact hx.1.trans hy.1.symm

/-- From each member on, the rest of the chain is a chain. -/
theorem Chain.suffix (hc : Chain next null h xs) {a : A} (ha : a ∈ xs) :
    ∃ pre post, xs = pre ++ a :: post ∧ Chain next null a (a :: post) := by
  induction xs generalizing h with
  | nil => exact nomatch ha
  | cons b bs ih =>
      rcases List.mem_cons.mp ha with rfl | hmem
      · exact ⟨[], bs, rfl, rfl, hc.2⟩
      · obtain ⟨pre, post, rfl, hpost⟩ := ih hc.2.2 hmem
        exact ⟨b :: pre, post, rfl, hpost⟩

/-- No member is visited twice. -/
theorem Chain.nodup (hc : Chain next null h xs) : xs.Nodup := by
  induction xs generalizing h with
  | nil => exact List.nodup_nil
  | cons a as ih =>
      refine List.nodup_cons.mpr ⟨?_, ih hc.2.2⟩
      intro hmem
      -- a second visit of `a` would start a shorter chain from the same place
      obtain ⟨pre, post, heq, hpost⟩ := hc.2.2.suffix hmem
      have hsame : as = post := hc.2.2.unique hpost.2.2
      have hlen := congrArg List.length heq
      rw [List.length_append, List.length_cons, hsame] at hlen
      omega

/-- A chain with the same members as the rest of `h`'s chain starts behind `h`. -/
theorem Chain.head_eq (hc : Chain next null h xs) {h' : A} (hy : Chain next null h' ys)
    (hmem : ∀ a, a ∈ ys ↔ a ∈ xs) : h' = h := by
  cases xs with
  | nil =>
      cases ys with
      | nil => exact hy.trans hc.symm
      | cons b bs => exact absurd ((hmem b).mp (List.mem_cons_self ..)) List.not_mem_nil
  | cons a as =>
      cases ys with
      | nil => exact absurd ((hmem a).mpr (List.mem_cons_self ..)) List.not_mem_nil
      | cons b bs =>
          obtain ⟨pre, post, heq, hpost⟩ := hc.suffix ((hmem b).mp (List.mem_cons_self ..))
          have hsame : bs = post := hy.2.2.unique hpost.2.2
          have hlen : (b :: bs).length = (a :: as).length :=
            ((List.perm_ext_iff_of_nodup hy.nodup hc.nodup).mpr hmem).length_eq
          rw [heq, List.length_append, List.length_cons, List.length_cons, hsame] at hlen
          obtain rfl : pre = [] := List.length_eq_zero_iff.mp (by omega)
          obtain ⟨rfl, -⟩ := List.cons.inj heq
          rw [hy.1, hc.1]

end LinkedList
