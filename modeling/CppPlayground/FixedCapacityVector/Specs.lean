import CppPlayground.FixedCapacityVector.Model

/-! # `FixedCapacityVector`: one specification per member

    `Rep c v xs` says that `v` stands for the list `xs` within capacity `c`: `m_size` is
    the length and the buffer holds `xs` from place `0` on, nothing elsewhere.  Each
    member is specified once, exceptions included; a specification in `wp` also says
    that every placement new found an empty place below `c` and every destroy a full
    one. -/

namespace FixedCapacityVector

open Program Storage

variable {T : Type} {c d : Nat} {E : Element T} {v o : Vec T} {xs ys : List T}

/-- `v` stands for `xs`. -/
structure Rep (c : Nat) (v : Vec T) (xs : List T) : Prop where
  size : v.mSize = xs.length
  fits : xs.length ≤ c
  holds : Holds v.mBuffer xs

theorem rep_uninitialised (c : Nat) {b : Slots T} (h : Holds b []) :
    Rep c (Vec.uninitialised b) [] := ⟨rfl, Nat.zero_le c, h⟩

/-- A vector that stands for `xs` is determined by its buffer. -/
theorem Rep.eq_mk (h : Rep c v xs) : ∃ b, v = ⟨xs.length, b⟩ ∧ Holds b xs := by
  obtain ⟨n, b⟩ := v
  obtain rfl : n = xs.length := h.size
  exact ⟨b, rfl, h.holds⟩

theorem Rep.empty_iff (h : Rep c v xs) : v.empty = true ↔ xs = [] := by
  rw [Vec.empty, h.size, beq_iff_eq]
  exact List.length_eq_zero_iff

theorem Rep.full_iff (h : Rep c v xs) : v.full c = true ↔ xs.length = c := by
  rw [Vec.full, h.size, beq_iff_eq]

@[simp] theorem wp_onBuffer {α : Type} {p : Prog (Slots T) Exn α} {Q : α → Vec T → Prop}
    {F : Exn → Vec T → Prop} :
    wp (onBuffer p) Q F v ↔ wp p (fun a b => Q a { v with mBuffer := b })
      (fun e b => F e { v with mBuffer := b }) v.mBuffer := Iff.rfl

@[simp] theorem wp_onThis {α : Type} {p : Prog (Vec T) Exn α}
    {Q : α → Vec T × Vec T → Prop} {F : Exn → Vec T × Vec T → Prop}
    {s : Vec T × Vec T} :
    wp (onThis p) Q F s ↔ wp p (fun a v => Q a (v, s.2)) (fun e v => F e (v, s.2)) s.1 :=
  Iff.rfl

@[simp] theorem wp_onOther {α : Type} {p : Prog (Vec T) Exn α}
    {Q : α → Vec T × Vec T → Prop} {F : Exn → Vec T × Vec T → Prop}
    {s : Vec T × Vec T} :
    wp (onOther p) Q F s ↔ wp p (fun a v => Q a (s.1, v)) (fun e v => F e (s.1, v)) s.2 :=
  Iff.rfl

/-! ## Observers -/

/-- Forward iteration passes over the elements in order. -/
theorem Rep.iterate_eq (h : Rep c v xs) : v.iterate = xs.map some := by
  refine List.ext_getElem? ?_
  intro i
  rw [Vec.iterate]
  by_cases hi : i < xs.length
  · simp [h.size, hi, h.holds i]
  · simp [h.size, hi]

/-- Reverse iteration passes over them in reverse. -/
theorem Rep.iterateReverse_eq (h : Rep c v xs) : v.iterateReverse = xs.reverse.map some := by
  refine List.ext_getElem? ?_
  intro i
  rw [Vec.iterateReverse]
  by_cases hi : i < xs.length
  · have hlt : xs.length - 1 - i < xs.length := by omega
    simp [h.size, hi, h.holds (xs.length - 1 - i), hlt, Nat.sub_right_comm _ i 1]
  · simp [h.size, hi]

theorem atIndex_spec (h : Rep c v xs) (i : Nat) :
    wp (atIndex i) (fun x v' => xs[i]? = some x ∧ v' = v)
      (fun e v' => e = .outOfRange ∧ xs.length ≤ i ∧ v' = v) v := by
  rw [atIndex, wp_bind, wp_gets, wp_ite, h.size]
  refine ⟨fun hi => ⟨rfl, hi, rfl⟩, ?_⟩
  intro hi
  rw [wp_onBuffer, wp_load]
  have hi' : i < xs.length := by omega
  exact ⟨xs[i], by rw [h.holds i, List.getElem?_eq_getElem hi'],
    List.getElem?_eq_getElem hi', rfl⟩

theorem front_spec (h : Rep c v xs) :
    wp front (fun x v' => xs.head? = some x ∧ v' = v)
      (fun e v' => e = .outOfRange ∧ xs = [] ∧ v' = v) v := by
  rw [front, wp_bind, wp_gets, wp_ite]
  refine ⟨fun he => ⟨rfl, h.empty_iff.mp he, rfl⟩, ?_⟩
  intro he
  rw [wp_onBuffer, wp_load]
  cases xs with
  | nil => exact absurd (h.empty_iff.mpr rfl) he
  | cons x rest => exact ⟨x, h.holds 0, rfl, rfl⟩

theorem back_spec (h : Rep c v xs) :
    wp back (fun x v' => xs.getLast? = some x ∧ v' = v)
      (fun e v' => e = .outOfRange ∧ xs = [] ∧ v' = v) v := by
  rw [back, wp_bind, wp_gets, wp_ite]
  refine ⟨fun he => ⟨rfl, h.empty_iff.mp he, rfl⟩, ?_⟩
  intro he
  have hne : xs ≠ [] := fun hnil => he (h.empty_iff.mpr hnil)
  rw [wp_bind, wp_gets, wp_onBuffer, wp_load]
  refine ⟨xs.getLast hne, ?_, List.getLast?_eq_some_getLast hne, rfl⟩
  rw [h.size, h.holds, ← List.getLast?_eq_getElem?, List.getLast?_eq_some_getLast hne]

/-! ## Members on one vector -/

/-- Destroying `m_size` elements empties a vector. -/
theorem destroyElements_spec (h : Rep c v xs) :
    wp destroyElements (fun _ v' => Rep c v' []) (fun _ _ => False) v := by
  rw [destroyElements, wp_bind, wp_gets, wp_bind, wp_onBuffer, h.size]
  refine wp_mono (wp_destroyRange h.holds) ?_ (fun _ _ hf => hf)
  intro _ b hb
  exact ⟨rfl, Nat.zero_le c, hb⟩

theorem clear_spec (h : Rep c v xs) :
    wp clear (fun _ v' => Rep c v' []) (fun _ _ => False) v := by
  rw [clear, wp_bind, wp_gets, wp_ite]
  constructor
  · intro he
    rw [wp_pure]
    rw [h.empty_iff.mp he] at h
    exact h
  · intro _
    exact destroyElements_spec h

/-- Between the placement new and `++m_size`: the new element is in place already. -/
structure Placed (c : Nat) (v : Vec T) (xs : List T) (x : T) : Prop where
  size : v.mSize = xs.length
  fits : xs.length < c
  holds : Holds v.mBuffer (xs ++ [x])

/-- None of the calls of a `k`-constructor for the places below `n` throws. -/
def NoneThrows (E : Element T) (k : Ctor) (n : Nat) : Prop := ∀ j < n, E.throws k j = false

theorem noneThrows_zero (E : Element T) (k : Ctor) : NoneThrows E k 0 :=
  fun j hj => absurd hj (Nat.not_lt_zero j)

theorem NoneThrows.succ {k : Ctor} {n : Nat} (h : NoneThrows E k n) (hn : E.throws k n = false) :
    NoneThrows E k (n + 1) := by
  intro j hj
  rcases Nat.lt_succ_iff_lt_or_eq.mp hj with hlt | rfl
  · exact h j hlt
  · exact hn

/-- A placement new behind the last element. -/
theorem newElement_spec (h : Rep c v xs) (hlt : xs.length < c) (k : Ctor) (x : T) :
    wp (newElement c E k xs.length x)
      (fun _ v' => Placed c v' xs x ∧ E.throws k xs.length = false)
      (fun e v' => e = .element ∧ E.throws k xs.length = true ∧ v' = v) v := by
  rw [newElement, wp_onBuffer, wp_constructAt]
  refine ⟨hlt, h.holds.length_none, ?_, ?_⟩
  · intro e he
    by_cases hth : E.throws k xs.length = true
    · rw [if_pos hth] at he
      exact ⟨(Option.some.inj he).symm, hth, rfl⟩
    · rw [if_neg hth] at he
      exact nomatch he
  · intro hreturns
    refine ⟨⟨h.size, hlt, h.holds.concat x⟩, ?_⟩
    by_cases hth : E.throws k xs.length = true
    · rw [if_pos hth] at hreturns
      exact absurd hreturns (Option.some_ne_none _)
    · exact Bool.eq_false_iff.mpr hth

/-- `++m_size` takes the new element in. -/
theorem incSize_spec {x : T} (h : Placed c v xs x) {F : Exn → Vec T → Prop} :
    wp incSize (fun _ v' => Rep c v' (xs ++ [x])) F v := by
  rw [incSize, wp_modify]
  have hlen : (xs ++ [x]).length = xs.length + 1 := List.length_append
  refine ⟨?_, hlen ▸ h.fits, h.holds⟩
  show v.mSize + 1 = _
  rw [h.size, hlen]

/-- Appending: construct behind the last element, then `++m_size`. -/
theorem appendElement_spec (h : Rep c v xs) (hlt : xs.length < c) (k : Ctor) (x : T) :
    wp (appendElement c E k x)
      (fun _ v' => Rep c v' (xs ++ [x]) ∧ E.throws k xs.length = false)
      (fun e v' => e = .element ∧ E.throws k xs.length = true ∧ v' = v) v := by
  rw [appendElement, wp_bind, wp_gets, h.size, wp_bind]
  refine wp_mono (newElement_spec h hlt k x) ?_ (fun _ _ hf => hf)
  rintro _ v' ⟨hp, hreturns⟩
  exact wp_mono (incSize_spec hp) (fun _ _ hr => ⟨hr, hreturns⟩) (fun _ _ hf => hf)

/-- How an appending member ends that is refused: the vector is full, nothing happens;
    or the constructor throws, nothing happens either. -/
def AppendFails (c : Nat) (E : Element T) (k : Ctor) (v : Vec T) (xs : List T) :
    Exn → Vec T → Prop := fun e v' =>
  v' = v ∧ ((e = .lengthError ∧ xs.length = c)
    ∨ (e = .element ∧ xs.length < c ∧ E.throws k xs.length = true))

/-- The guard shared by the appending members. -/
theorem append_guard {α : Type} (h : Rep c v xs) (k : Ctor) {p : Prog (Vec T) Exn α}
    {Q : α → Vec T → Prop}
    (hp : xs.length < c →
      wp p Q (fun e v' => e = .element ∧ E.throws k xs.length = true ∧ v' = v) v) :
    wp (do if ← gets (Vec.full c) then throwing .lengthError else p) Q
      (AppendFails c E k v xs) v := by
  rw [wp_bind, wp_gets, wp_ite]
  refine ⟨fun hf => ⟨rfl, Or.inl ⟨rfl, h.full_iff.mp hf⟩⟩, ?_⟩
  intro hf
  have hlt : xs.length < c := by
    have := h.fits
    have : xs.length ≠ c := fun he => hf (h.full_iff.mpr he)
    omega
  refine wp_mono (hp hlt) (fun _ _ hq => hq) ?_
  rintro e v' ⟨he, hth, hv⟩
  exact ⟨hv, Or.inr ⟨he, hlt, hth⟩⟩

theorem pushBackCopy_spec (h : Rep c v xs) (x : T) :
    wp (pushBackCopy c E x) (fun _ v' => xs.length < c ∧ Rep c v' (xs ++ [x]))
      (AppendFails c E .copy v xs) v :=
  append_guard h .copy fun hlt =>
    wp_mono (appendElement_spec h hlt .copy x) (fun _ _ hr => ⟨hlt, hr.1⟩) (fun _ _ hf => hf)

theorem pushBackMove_spec (h : Rep c v xs) (x : T) :
    wp (pushBackMove c E x)
      (fun left v' => xs.length < c ∧ left = E.moved x ∧ Rep c v' (xs ++ [x]))
      (AppendFails c E .move v xs) v := by
  refine append_guard h .move ?_
  intro hlt
  rw [wp_bind]
  exact wp_mono (appendElement_spec h hlt .move x) (fun _ _ hr => ⟨hlt, rfl, hr.1⟩)
    (fun _ _ hf => hf)

/-- The reference `emplace_back` returns is to the appended element. -/
theorem emplaceBack_spec (h : Rep c v xs) (x : T) :
    wp (emplaceBack c E x)
      (fun place v' => xs.length < c ∧ place = xs.length ∧ Rep c v' (xs ++ [x]))
      (AppendFails c E .args v xs) v := by
  refine append_guard h .args ?_
  intro hlt
  rw [wp_bind]
  refine wp_mono (appendElement_spec h hlt .args x) ?_ (fun _ _ hf => hf)
  rintro _ v' ⟨hr, -⟩
  rw [wp_bind, wp_gets, wp_pure]
  refine ⟨hlt, ?_, hr⟩
  rw [hr.size, List.length_append]
  rfl

theorem popBack_spec (h : Rep c v xs) :
    wp popBack (fun _ v' => xs ≠ [] ∧ Rep c v' xs.dropLast)
      (fun e v' => e = .outOfRange ∧ xs = [] ∧ v' = v) v := by
  rw [popBack, wp_bind, wp_gets, wp_ite]
  refine ⟨fun he => ⟨rfl, h.empty_iff.mp he, rfl⟩, ?_⟩
  intro he
  have hne : xs ≠ [] := fun hnil => he (h.empty_iff.mpr hnil)
  have hpos : 0 < xs.length := List.length_pos_iff.mpr hne
  have hfit := h.fits
  obtain ⟨b, rfl, hb⟩ := h.eq_mk
  rw [decSize, wp_bind, wp_modify, wp_bind, wp_gets, wp_onBuffer, wp_destroyAt]
  have hlast : xs.length - 1 < xs.length := by omega
  refine ⟨(hb.isSome_iff _).mpr hlast, hne, ?_, ?_, hb.dropLast hne⟩
  · exact List.length_dropLast.symm
  · rw [List.length_dropLast]
    omega

/-! ## `resize` -/

/-- The list `resize(n)` is after: cut off at the end, or filled up with `T()`. -/
def resized (E : Element T) (n : Nat) (xs : List T) : List T :=
  xs.take n ++ List.replicate (n - xs.length) E.dflt

theorem length_resized (E : Element T) (n : Nat) (xs : List T) :
    (resized E n xs).length = n := by
  rw [resized]
  simp only [List.length_append, List.length_take, List.length_replicate]
  omega

/-- How `resize(n)` fails: on the way up it meets the capacity or a throwing `T()`, and
    keeps what it has added so far. -/
def ResizeFails (c : Nat) (E : Element T) (n : Nat) (xs : List T) : Exn → Vec T → Prop :=
  fun e v' => ∃ j, xs.length + j < n ∧ Rep c v' (xs ++ List.replicate j E.dflt)
    ∧ ((e = .lengthError ∧ xs.length + j = c)
      ∨ (e = .element ∧ E.throws .args (xs.length + j) = true))

/-- The first loop cuts the vector down to `n` elements. -/
theorem shrink_spec (h : Rep c v xs) (n : Nat) {F : Exn → Vec T → Prop} :
    wp (whileLoop (fun v => n < v.mSize) popBack (v.mSize + 1))
      (fun _ v' => Rep c v' (xs.take n)) F v := by
  -- the invariant: some prefix is left, never shorter than what `resize` keeps
  refine wp_mono (wp_whileLoop
    (fun v => ∃ m, min n xs.length ≤ m ∧ m ≤ xs.length ∧ Rep c v (xs.take m)) Vec.mSize
    ?_ (v.mSize + 1) v (Nat.lt_succ_self _)
    ⟨xs.length, Nat.min_le_right _ _, Nat.le_refl _, by rw [List.take_length]; exact h⟩)
    ?_ (fun _ _ hf => hf)
  · rintro s hc ⟨m, hnm, hm, hr⟩
    have hlen : (xs.take m).length = m := by
      rw [List.length_take]
      exact Nat.min_eq_left hm
    have hsize : s.mSize = m := hr.size.trans hlen
    have hlt : n < m := by simpa [hsize] using hc
    refine wp_mono (popBack_spec hr) ?_ ?_
    · rintro _ s' ⟨-, hr'⟩
      have hdrop : (xs.take m).dropLast = xs.take (m - 1) := by
        rw [List.dropLast_eq_take, hlen, List.take_take, Nat.min_eq_left (Nat.sub_le m 1)]
      rw [hdrop] at hr'
      refine ⟨⟨m - 1, by omega, by omega, hr'⟩, ?_⟩
      rw [hr'.size, hsize, List.length_take]
      omega
    · -- `pop_back` refuses only an empty vector, and this one is longer than `n`
      rintro e s' ⟨-, hnil, -⟩
      rw [hnil] at hlen
      exact absurd hlen (by simp; omega)
  · rintro _ s ⟨⟨m, hnm, hm, hr⟩, hstop⟩
    have hsize : s.mSize = m := by
      rw [hr.size, List.length_take]
      exact Nat.min_eq_left hm
    have hle : m ≤ n := by
      have : ¬ n < s.mSize := by simpa using hstop
      omega
    have heq : xs.take n = xs.take m := by
      by_cases hn : n ≤ xs.length
      · have : m = n := by omega
        rw [this]
      · have : m = xs.length := by omega
        rw [this, List.take_length, List.take_of_length_le (by omega)]
    rw [heq]
    exact hr

/-- The second loop fills the vector up to `n` elements. -/
theorem grow_spec (h : Rep c v ys) {n : Nat} (hn : ys.length ≤ n) :
    wp (whileLoop (fun v => v.mSize < n) (do let _ ← emplaceBack c E E.dflt) (n + 1))
      (fun _ v' => Rep c v' (ys ++ List.replicate (n - ys.length) E.dflt))
      (ResizeFails c E n ys) v := by
  have hlen : ∀ j, (ys ++ List.replicate j E.dflt).length = ys.length + j := by
    intro j
    rw [List.length_append, List.length_replicate]
  -- the invariant: `j` copies of `T()` have been appended so far
  refine wp_mono (wp_whileLoop
    (fun v => ∃ j, ys.length + j ≤ n ∧ Rep c v (ys ++ List.replicate j E.dflt))
    (fun v => n - v.mSize) ?_ (n + 1) v (by omega) ⟨0, hn, by simpa using h⟩)
    ?_ (fun _ _ hf => hf)
  · rintro s hc ⟨j, hj, hr⟩
    have hsize : s.mSize = ys.length + j := hr.size.trans (hlen j)
    have hlt : ys.length + j < n := by simpa [hsize] using hc
    rw [wp_bind]
    refine wp_mono (emplaceBack_spec hr E.dflt) ?_ ?_
    · rintro _ s' ⟨-, -, hr'⟩
      have hrep : ys ++ List.replicate j E.dflt ++ [E.dflt]
          = ys ++ List.replicate (j + 1) E.dflt := by
        rw [List.append_assoc, List.replicate_succ']
      rw [hrep] at hr'
      rw [wp_pure]
      refine ⟨⟨j + 1, by omega, hr'⟩, ?_⟩
      rw [hr'.size, hsize, hlen]
      omega
    · rintro e s' ⟨rfl, hfail⟩
      rw [hlen] at hfail
      refine ⟨j, hlt, hr, ?_⟩
      rcases hfail with ⟨he, hfull⟩ | ⟨he, -, hth⟩
      · exact Or.inl ⟨he, hfull⟩
      · exact Or.inr ⟨he, hth⟩
  · rintro _ s ⟨⟨j, hj, hr⟩, hstop⟩
    have hle : n ≤ ys.length + j := by
      have : ¬ s.mSize < n := by simpa using hstop
      rw [hr.size, hlen] at this
      omega
    have hje : n - ys.length = j := by omega
    rw [hje]
    exact hr

theorem resize_spec (h : Rep c v xs) (n : Nat) :
    wp (resize c E n) (fun _ v' => Rep c v' (resized E n xs)) (ResizeFails c E n xs) v := by
  rw [resize, wp_bind, wp_gets, wp_ite]
  constructor
  · intro hn
    rw [wp_pure]
    have : resized E n xs = xs := by
      rw [resized]
      rw [← hn, h.size, List.take_length, Nat.sub_self, List.replicate_zero, List.append_nil]
    rw [this]
    exact h
  · intro hn
    rw [h.size] at hn
    rw [wp_bind]
    refine wp_mono (shrink_spec h n) ?_ (fun _ _ hf => hf)
    intro _ v' hr
    -- the growing loop starts from whatever the shrinking one has left
    refine wp_mono (grow_spec hr (by rw [List.length_take]; omega)) ?_ ?_
    · intro _ v'' hr'
      rw [resized]
      have hsub : n - (xs.take n).length = n - xs.length := by
        rw [List.length_take]
        omega
      rw [hsub] at hr'
      exact hr'
    · rintro e v'' ⟨j, hj, hr', hwhy⟩
      -- a failure means the loop was still below `n`, so nothing had been cut off
      have hle : xs.length ≤ n := by
        rw [List.length_take] at hj
        omega
      rw [List.take_of_length_le hle] at hj hr' hwhy
      exact ⟨j, hj, hr', hwhy⟩

/-! ## Construction from a list -/

/-- The initializer-list loop appends its items; a throwing copy leaves the items
    before it constructed. -/
theorem initLoop_spec (init : List T) (h : Rep c v xs) (hfit : xs.length + init.length ≤ c) :
    wp (initLoop c E init)
      (fun _ v' => Rep c v' (xs ++ init)
        ∧ ∀ j < init.length, E.throws .copy (xs.length + j) = false)
      (fun e v' => e = .element ∧ ∃ k < init.length, E.throws .copy (xs.length + k) = true
        ∧ (∀ j < k, E.throws .copy (xs.length + j) = false)
        ∧ Rep c v' (xs ++ init.take k)) v := by
  -- generalized, because each round starts from a longer vector
  induction init generalizing v xs with
  | nil =>
      rw [initLoop, wp_pure, List.append_nil]
      exact ⟨h, fun j hj => absurd hj (Nat.not_lt_zero j)⟩
  | cons item rest ih =>
      rw [List.length_cons] at hfit
      rw [initLoop, wp_bind]
      refine wp_mono (appendElement_spec h (by omega) .copy item) ?_ ?_
      · rintro _ v' ⟨hr, hreturns⟩
        have hlen : (xs ++ [item]).length = xs.length + 1 := List.length_append
        -- the items before place `k` of the rest are the first one and those before it
        have hbefore : ∀ k, (∀ j < k, E.throws .copy ((xs ++ [item]).length + j) = false) →
            ∀ j < k + 1, E.throws .copy (xs.length + j) = false := by
          intro k hnone j hj
          cases j with
          | zero => exact hreturns
          | succ j =>
              have hprev := hnone j (Nat.lt_of_succ_lt_succ hj)
              rw [hlen, Nat.add_assoc, Nat.add_comm 1 j] at hprev
              exact hprev
        refine wp_mono (ih hr (by rw [hlen]; omega)) ?_ ?_
        · rintro _ v'' ⟨hr', hnone⟩
          rw [List.append_assoc] at hr'
          exact ⟨hr', hbefore _ hnone⟩
        · rintro e v'' ⟨he, k, hk, hth, hnone, hr'⟩
          rw [hlen, Nat.add_assoc, Nat.add_comm 1 k] at hth
          rw [List.append_assoc] at hr'
          exact ⟨he, k + 1, Nat.succ_lt_succ hk, hth, hbefore k hnone, hr'⟩
      · rintro e v' ⟨he, hth, rfl⟩
        refine ⟨he, 0, Nat.succ_pos _, hth, fun j hj => absurd hj (Nat.not_lt_zero j), ?_⟩
        rw [List.take_zero, List.append_nil]
        exact h

theorem initConstruct_spec (h : Rep c v []) (init : List T) :
    wp (initConstruct c E init) (fun _ v' => init.length ≤ c ∧ Rep c v' init)
      (fun e v' => (e = .lengthError ∧ c < init.length ∧ v' = v)
        ∨ (e = .element ∧ init.length ≤ c ∧ ∃ k < init.length,
            E.throws .copy k = true ∧ Rep c v' (init.take k))) v := by
  rw [initConstruct, wp_ite]
  refine ⟨fun hc => Or.inl ⟨rfl, hc, rfl⟩, ?_⟩
  intro hc
  have hle : init.length ≤ c := Nat.not_lt.mp hc
  refine wp_mono (initLoop_spec init h (by simpa using hle)) ?_ ?_
  · rintro _ v' ⟨hr, -⟩
    exact ⟨hle, hr⟩
  · rintro e v' ⟨he, k, hk, hth, -, hr⟩
    rw [List.length_nil, Nat.zero_add] at hth
    exact Or.inr ⟨he, hle, k, hk, hth, hr⟩

/-! ## The loops over a second vector -/

theorem take_concat_getElem {i : Nat} (hi : i < ys.length) :
    ys.take i ++ [ys[i]] = ys.take (i + 1) := (List.take_append_getElem hi)

/-- The copy loop: a throwing copy leaves the copies before it, `other` is left alone. -/
theorem copyLoop_spec (h : Rep c v []) (ho : Rep d o ys) (hfit : ys.length ≤ c) :
    wp (copyLoop c E)
      (fun _ s => Rep c s.1 ys ∧ s.2 = o ∧ NoneThrows E .copy ys.length)
      (fun e s => e = .element ∧ (∃ k < ys.length, E.throws .copy k = true
        ∧ NoneThrows E .copy k ∧ Rep c s.1 (ys.take k)) ∧ s.2 = o) (v, o) := by
  rw [copyLoop, wp_bind, wp_onOther, wp_gets, ho.size]
  refine wp_mono (wp_forRange
    (fun i s => Rep c s.1 (ys.take i) ∧ s.2 = o ∧ NoneThrows E .copy i) ?_
    ⟨h, rfl, noneThrows_zero E .copy⟩) ?_ (fun _ _ hf => hf)
  · rintro i ⟨w, o'⟩ hi ⟨hr, ho', hnone⟩
    obtain rfl : o' = o := ho'
    have hlen : (ys.take i).length = i := by
      rw [List.length_take]
      omega
    have hnew := newElement_spec (E := E) hr (by omega) .copy ys[i]
    rw [hlen] at hnew
    rw [wp_bind, wp_onOther, wp_onBuffer, wp_load]
    refine ⟨ys[i], by rw [ho.holds i, List.getElem?_eq_getElem hi], ?_⟩
    rw [wp_bind, wp_onThis]
    refine wp_mono hnew ?_ ?_
    · rintro _ w' ⟨hp, hreturns⟩
      rw [wp_onThis]
      refine wp_mono (incSize_spec hp) ?_ (fun _ _ hf => hf)
      intro _ w'' hr'
      rw [take_concat_getElem hi] at hr'
      exact ⟨hr', rfl, hnone.succ hreturns⟩
    · -- the throwing copy has not been counted: the vector ends before it
      rintro e w' ⟨he, hth, hw⟩
      exact ⟨he, ⟨i, hi, hth, hnone, hw ▸ hr⟩, rfl⟩
  · rintro _ ⟨w, o'⟩ ⟨hr, hrest⟩
    rw [List.take_length] at hr
    exact ⟨hr, hrest⟩

/-- The source of a move loop that has moved `i` elements: their places are empty, the
    others still full, and `m_size` is untouched. -/
structure MovedOut (i : Nat) (o : Vec T) (ys : List T) : Prop where
  size : o.mSize = ys.length
  holds : HoldsFrom i o.mBuffer ys

/-- The move loop.  When the `k`-th move throws, `other` still claims all its elements:
    the first `k` places are empty and place `k` holds a half moved-from object. -/
theorem moveLoop_spec (h : Rep c v []) (ho : Rep d o ys) (hfit : ys.length ≤ c) :
    wp (moveLoop c E)
      (fun _ s => Rep c s.1 ys ∧ MovedOut ys.length s.2 ys ∧ NoneThrows E .move ys.length)
      (fun e s => e = .element ∧ ∃ k, ∃ hk : k < ys.length, E.throws .move k = true
        ∧ NoneThrows E .move k
        ∧ Rep c s.1 (ys.take k) ∧ MovedOut k s.2 (ys.set k (E.halfMoved ys[k])))
      (v, o) := by
  rw [moveLoop, wp_bind, wp_onOther, wp_gets, ho.size]
  refine wp_mono (wp_forRange
    (fun i s => Rep c s.1 (ys.take i) ∧ MovedOut i s.2 ys ∧ NoneThrows E .move i) ?_
    ⟨h, ⟨ho.size, ho.holds.from_zero⟩, noneThrows_zero E .move⟩) ?_ (fun _ _ hf => hf)
  · rintro i ⟨w, o'⟩ hi ⟨hr, hs, hnone⟩
    have hlen : (ys.take i).length = i := by
      rw [List.length_take]
      omega
    have hnew := newElement_spec (E := E) hr (by omega) .move ys[i]
    rw [hlen] at hnew
    have hi' : o'.mBuffer i = some ys[i] := hs.holds.getElem hi
    -- the source stays in its slot, moved from, until `destroy_at` below
    rw [moveElement, wp_bind, wp_bind, wp_onOther, wp_onBuffer, wp_load]
    refine ⟨ys[i], hi', ?_⟩
    rw [wp_bind, wp_onOther, wp_onBuffer, wp_assignAt]
    refine ⟨by rw [hi']; rfl, ?_⟩
    rw [wp_onThis]
    refine wp_mono hnew ?_ ?_
    · rintro _ w' ⟨hp, hreturns⟩
      rw [wp_bind, wp_onThis]
      refine wp_mono (incSize_spec hp) ?_ (fun _ _ hf => hf)
      intro _ w'' hr'
      rw [take_concat_getElem hi] at hr'
      rw [wp_onOther, wp_onBuffer, wp_destroyAt]
      refine ⟨by simp, hr', ⟨hs.size, ?_⟩, hnone.succ hreturns⟩
      show HoldsFrom (i + 1) (Function.update (Function.update o'.mBuffer i _) i none) ys
      rw [Function.update_idem]
      exact hs.holds.erase
    · -- `destroy_at` is not reached, so the half moved element stays in its slot
      rintro e w' ⟨he, hth, hw⟩
      refine ⟨he, i, hi, hth, hnone, hw ▸ hr, ?_, ?_⟩
      · rw [List.length_set]
        exact hs.size
      · show HoldsFrom i (Function.update o'.mBuffer i _) _
        rw [if_pos hth]
        exact hs.holds.set hi _
  · rintro _ ⟨w, o'⟩ ⟨hr, hrest⟩
    rw [List.take_length] at hr
    exact ⟨hr, hrest⟩

/-! ## Members with a second vector -/

/-- How a member that copies `other` into `*this` fails: the size check refuses and
    nothing has happened, or the copy of element `k` throws. -/
def CopyFails (c : Nat) (E : Element T) (v o : Vec T) (ys : List T) :
    Exn → Vec T × Vec T → Prop := fun e s => s.2 = o
  ∧ ((e = .lengthError ∧ c < ys.length ∧ s.1 = v)
    ∨ (e = .element ∧ ys.length ≤ c ∧ ∃ k < ys.length, E.throws .copy k = true
        ∧ Rep c s.1 (ys.take k)))

/-- How a member that moves `other` into `*this` fails. -/
def MoveFails (c : Nat) (E : Element T) (v o : Vec T) (ys : List T) :
    Exn → Vec T × Vec T → Prop := fun e s =>
  (e = .lengthError ∧ c < ys.length ∧ s = (v, o))
  ∨ (e = .element ∧ ys.length ≤ c ∧ ∃ k, ∃ hk : k < ys.length, E.throws .move k = true
      ∧ Rep c s.1 (ys.take k) ∧ MovedOut k s.2 (ys.set k (E.halfMoved ys[k])))

/-- The run-time check lets exactly the sources that fit pass. -/
theorem checkSize_guard (ho : Rep d o ys) {p : Prog (Vec T × Vec T) Exn Unit}
    {Q : Unit → Vec T × Vec T → Prop} {F : Exn → Vec T × Vec T → Prop}
    (hp : ys.length ≤ c → wp p Q F (v, o)) (hF : c < ys.length → F .lengthError (v, o)) :
    wp (do checkSize c; p) Q F (v, o) := by
  rw [checkSize, wp_bind, wp_bind, wp_onOther, wp_gets, wp_ite, ho.size]
  refine ⟨fun hc => hF hc, ?_⟩
  intro hc
  rw [wp_pure]
  exact hp (Nat.not_lt.mp hc)

/-- Under `if constexpr` the check is left out when the other capacity is no larger,
    and then every source fits. -/
theorem checkSizeIfLarger_guard (ho : Rep d o ys) {p : Prog (Vec T × Vec T) Exn Unit}
    {Q : Unit → Vec T × Vec T → Prop} {F : Exn → Vec T × Vec T → Prop}
    (hp : ys.length ≤ c → wp p Q F (v, o)) (hF : c < ys.length → F .lengthError (v, o)) :
    wp (do checkSizeIfLarger c d; p) Q F (v, o) := by
  rw [checkSizeIfLarger]
  by_cases hcd : c < d
  · rw [if_pos hcd]
    exact checkSize_guard ho hp hF
  · rw [if_neg hcd, wp_bind, wp_pure]
    have := ho.fits
    exact hp (by omega)

/-- The copy loop on an empty target, as the tail of a member that started at `(v, o)`. -/
theorem copyLoop_tail {w : Vec T} (h : Rep c w []) (ho : Rep d o ys) (hfit : ys.length ≤ c) :
    wp (copyLoop c E) (fun _ s => ys.length ≤ c ∧ Rep c s.1 ys ∧ s.2 = o)
      (CopyFails c E v o ys) (w, o) := by
  refine wp_mono (copyLoop_spec h ho hfit) (fun _ _ hq => ⟨hfit, hq.1, hq.2.1⟩) ?_
  rintro e s ⟨he, ⟨k, hk, hth, -, hr⟩, hs⟩
  exact ⟨hs, Or.inr ⟨he, hfit, k, hk, hth, hr⟩⟩

/-- The move loop on an empty target followed by `other.m_size = 0`. -/
theorem moveLoop_tail {w : Vec T} (h : Rep c w []) (ho : Rep d o ys) (hfit : ys.length ≤ c) :
    wp (do moveLoop c E; onOther (setSize 0))
      (fun _ s => ys.length ≤ c ∧ Rep c s.1 ys ∧ Rep d s.2 []) (MoveFails c E v o ys)
      (w, o) := by
  rw [wp_bind]
  refine wp_mono (moveLoop_spec h ho hfit) ?_ ?_
  · rintro _ s ⟨hr, hs, -⟩
    exact ⟨hfit, hr, rfl, Nat.zero_le d, hs.holds.all⟩
  · rintro e s ⟨he, k, hk, hth, -, hr, hs⟩
    exact Or.inr ⟨he, hfit, k, hk, hth, hr, hs⟩

theorem copyConstruct_spec (h : Rep c v []) (ho : Rep c o ys) :
    wp (copyConstruct c E) (fun _ s => ys.length ≤ c ∧ Rep c s.1 ys ∧ s.2 = o)
      (CopyFails c E v o ys) (v, o) :=
  copyLoop_tail h ho ho.fits

theorem copyConstructOther_spec (h : Rep c v []) (ho : Rep d o ys) :
    wp (copyConstructOther c E) (fun _ s => ys.length ≤ c ∧ Rep c s.1 ys ∧ s.2 = o)
      (CopyFails c E v o ys) (v, o) :=
  checkSize_guard ho (fun hfit => copyLoop_tail h ho hfit)
    (fun hc => ⟨rfl, Or.inl ⟨rfl, hc, rfl⟩⟩)

theorem moveConstruct_spec (h : Rep c v []) (ho : Rep c o ys) :
    wp (moveConstruct c E) (fun _ s => ys.length ≤ c ∧ Rep c s.1 ys ∧ Rep c s.2 [])
      (MoveFails c E v o ys) (v, o) :=
  moveLoop_tail h ho ho.fits

theorem moveConstructOther_spec (h : Rep c v []) (ho : Rep d o ys) :
    wp (moveConstructOther c E) (fun _ s => ys.length ≤ c ∧ Rep c s.1 ys ∧ Rep d s.2 [])
      (MoveFails c E v o ys) (v, o) :=
  checkSize_guard ho (fun hfit => moveLoop_tail h ho hfit)
    (fun hc => Or.inl ⟨rfl, hc, rfl⟩)

/-- After the target has been emptied, an assignment goes on like a constructor. -/
theorem onThis_emptied {p : Prog (Vec T) Exn Unit} {q : Prog (Vec T × Vec T) Exn Unit}
    {Q : Unit → Vec T × Vec T → Prop} {F : Exn → Vec T × Vec T → Prop}
    (hp : wp p (fun _ v' => Rep c v' []) (fun _ _ => False) v)
    (hq : ∀ w, Rep c w [] → wp q Q F (w, o)) : wp (do onThis p; q) Q F (v, o) := by
  rw [wp_bind, wp_onThis]
  exact wp_mono hp (fun _ w hw => hq w hw) (fun _ _ hf => hf.elim)

theorem copyAssign_spec (h : Rep c v xs) (ho : Rep c o ys) :
    wp (copyAssign c E false) (fun _ s => ys.length ≤ c ∧ Rep c s.1 ys ∧ s.2 = o)
      (CopyFails c E v o ys) (v, o) :=
  onThis_emptied (destroyElements_spec h) fun _ hw => copyLoop_tail hw ho ho.fits

theorem copyAssignOther_spec (h : Rep c v xs) (ho : Rep d o ys) :
    wp (copyAssignOther c d E) (fun _ s => ys.length ≤ c ∧ Rep c s.1 ys ∧ s.2 = o)
      (CopyFails c E v o ys) (v, o) :=
  checkSizeIfLarger_guard ho
    (fun hfit => onThis_emptied (destroyElements_spec h) fun _ hw => copyLoop_tail hw ho hfit)
    (fun hc => ⟨rfl, Or.inl ⟨rfl, hc, rfl⟩⟩)

theorem moveAssign_spec (h : Rep c v xs) (ho : Rep c o ys) :
    wp (moveAssign c E false) (fun _ s => ys.length ≤ c ∧ Rep c s.1 ys ∧ Rep c s.2 [])
      (MoveFails c E v o ys) (v, o) :=
  onThis_emptied (clear_spec h) fun _ hw => moveLoop_tail hw ho ho.fits

theorem moveAssignOther_spec (h : Rep c v xs) (ho : Rep d o ys) :
    wp (moveAssignOther c d E) (fun _ s => ys.length ≤ c ∧ Rep c s.1 ys ∧ Rep d s.2 [])
      (MoveFails c E v o ys) (v, o) :=
  checkSizeIfLarger_guard ho
    (fun hfit => onThis_emptied (clear_spec h) fun _ hw => moveLoop_tail hw ho hfit)
    (fun hc => Or.inl ⟨rfl, hc, rfl⟩)

/-- Self-assignment returns before anything is touched. -/
theorem copyAssign_self (c : Nat) (E : Element T) (s : Vec T × Vec T) :
    copyAssign c E true s = (.ok (), s) := rfl

theorem moveAssign_self (c : Nat) (E : Element T) (s : Vec T × Vec T) :
    moveAssign c E true s = (.ok (), s) := rfl

/-! ## The member that the capacities select -/

theorem copyConstruct_selected (h : Rep c v []) (ho : Rep d o ys) :
    wp (if d = c then copyConstruct c E else copyConstructOther c E)
      (fun _ s => ys.length ≤ c ∧ Rep c s.1 ys ∧ s.2 = o) (CopyFails c E v o ys) (v, o) := by
  rw [wp_ite]
  exact ⟨fun hsame => copyConstruct_spec h (hsame ▸ ho), fun _ => copyConstructOther_spec h ho⟩

theorem moveConstruct_selected (h : Rep c v []) (ho : Rep d o ys) :
    wp (if d = c then moveConstruct c E else moveConstructOther c E)
      (fun _ s => ys.length ≤ c ∧ Rep c s.1 ys ∧ Rep d s.2 []) (MoveFails c E v o ys) (v, o) := by
  rw [wp_ite]
  refine ⟨?_, fun _ => moveConstructOther_spec h ho⟩
  rintro rfl
  exact moveConstruct_spec h ho

theorem copyAssign_selected (h : Rep c v xs) (ho : Rep d o ys) :
    wp (if d = c then copyAssign c E false else copyAssignOther c d E)
      (fun _ s => ys.length ≤ c ∧ Rep c s.1 ys ∧ s.2 = o) (CopyFails c E v o ys) (v, o) := by
  rw [wp_ite]
  exact ⟨fun hsame => copyAssign_spec h (hsame ▸ ho), fun _ => copyAssignOther_spec h ho⟩

theorem moveAssign_selected (h : Rep c v xs) (ho : Rep d o ys) :
    wp (if d = c then moveAssign c E false else moveAssignOther c d E)
      (fun _ s => ys.length ≤ c ∧ Rep c s.1 ys ∧ Rep d s.2 []) (MoveFails c E v o ys) (v, o) := by
  rw [wp_ite]
  refine ⟨?_, fun _ => moveAssignOther_spec h ho⟩
  rintro rfl
  exact moveAssign_spec h ho

end FixedCapacityVector
