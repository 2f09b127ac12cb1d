import CppPlayground.FixedCapacityVector.Specs

/-! # `FixedCapacityVector`: what a member that throws leaves behind

    The loops of the class construct element by element and keep the `m_size` of `*this` in
    step, so `*this` is in order wherever a constructor throws.  Three things are not in
    step: the move loops destroy the elements of `other` one by one and set its `m_size`
    after the last, the constructors do not destroy what they have constructed when they
    throw, and `resize` meets the capacity only after it has filled the vector up. -/

namespace FixedCapacityVector

open Program Storage

variable {T : Type} {c d k : Nat} {E : Element T} {v o : Vec T} {xs ys : List T}

/-- Of the `n` calls of a constructor of one kind, that for place `k` is the first to
    throw. -/
structure FirstThrow (E : Element T) (kind : Ctor) (n k : Nat) : Prop where
  lt : k < n
  throws : E.throws kind k = true
  before : NoneThrows E kind k

/-- The first call that throws is one call. -/
theorem FirstThrow.unique {kind : Ctor} {n j : Nat} (hk : FirstThrow E kind n k)
    (hj : E.throws kind j = true) (hbefore : NoneThrows E kind j) : j = k := by
  rcases Nat.lt_trichotomy j k with hlt | heq | hgt
  · exact absurd (hk.before j hlt) (by rw [hj]; decide)
  · exact heq
  · exact absurd (hbefore k hgt) (by rw [hk.throws]; decide)

theorem FirstThrow.not_noneThrows {kind : Ctor} {n : Nat} (hk : FirstThrow E kind n k) :
    ¬ NoneThrows E kind n := by
  intro hnone
  exact absurd (hnone k hk.lt) (by rw [hk.throws]; decide)

/-! ## Vectors whose size and slots agree -/

/-- The slots that hold an element are exactly `0 … m_size - 1`. -/
def Exact (v : Vec T) : Prop := ∀ i, (v.mBuffer i).isSome ↔ i < v.mSize

theorem Rep.exact (h : Rep c v xs) : Exact v := by
  intro i
  rw [h.size]
  exact h.holds.isSome_iff i

/-- Such a vector stands for what its slots hold. -/
theorem Exact.rep (h : Exact v) : ∃ xs, Rep v.mSize v xs := by
  have hget : ∀ i : Fin v.mSize, (v.mBuffer i).isSome := fun i => (h i).mpr i.isLt
  refine ⟨List.ofFn fun i : Fin v.mSize => (v.mBuffer i).get (hget i), ?_, ?_, ?_⟩
  · rw [List.length_ofFn]
  · exact Nat.le_of_eq List.length_ofFn
  · intro i
    rw [List.getElem?_ofFn]
    by_cases hi : i < v.mSize
    · rw [dif_pos hi, Option.some_get]
    · rw [dif_neg hi]
      exact Option.not_isSome_iff_eq_none.mp fun hsome => hi ((h i).mp hsome)

/-- Size and slots agree, and `clear`, the destructor (which is `clear`) and an assignment
    destroy each element once: the place of each is full when it is destroyed and empty
    afterwards. -/
structure Destroyable (v : Vec T) : Prop where
  exact : Exact v
  cleared : wp clear (fun _ v' => Holds v'.mBuffer []) (fun _ _ => False) v
  assigned : wp destroyElements (fun _ v' => Holds v'.mBuffer []) (fun _ _ => False) v

theorem destroyable_iff : Destroyable v ↔ Exact v := by
  refine ⟨Destroyable.exact, ?_⟩
  intro h
  obtain ⟨xs, hr⟩ := h.rep
  exact ⟨h, wp_mono (clear_spec hr) (fun _ _ hr' => hr'.holds) (fun _ _ hf => hf),
    wp_mono (destroyElements_spec hr) (fun _ _ hr' => hr'.holds) (fun _ _ hf => hf)⟩

/-- A source out of which `k` elements have been moved is in order only if `k = 0`. -/
theorem MovedOut.exact_iff (h : MovedOut k o ys) (hk : k < ys.length) : Exact o ↔ k = 0 := by
  constructor
  · intro hexact
    by_contra hpos
    have hempty : o.mBuffer 0 = none := by
      rw [h.holds, if_pos (Nat.pos_of_ne_zero hpos)]
    have hfull := (hexact 0).mpr (by rw [h.size]; omega)
    rw [hempty] at hfull
    exact absurd hfull Bool.false_ne_true
  · rintro rfl
    exact Rep.exact (c := ys.length) ⟨h.size, Nat.le_refl _, fun i => by
      rw [h.holds, if_neg (Nat.not_lt_zero i)]⟩

/-- `clear` of any other such source destroys an element that is not there. -/
theorem MovedOut.clear_undefined (h : MovedOut k o ys) (hk : k < ys.length) (hpos : 0 < k) :
    (clear o).1 = .undefined := by
  have hempty : o.mBuffer 0 = none := by
    rw [h.holds, if_pos hpos]
  obtain ⟨n, hn⟩ : ∃ n, o.mSize = n + 1 := ⟨ys.length - 1, by rw [h.size]; omega⟩
  have hsome : ¬ o.empty = true := by
    rw [Vec.empty, hn]
    exact Bool.false_ne_true
  have hdestroy : (destroyAt 0 : Prog (Slots T) Exn Unit) o.mBuffer = (.undefined, o.mBuffer) := by
    rw [destroyAt, hempty]
    rfl
  have hrange : (destroyRange (n + 1) : Prog (Slots T) Exn Unit) o.mBuffer
      = (.undefined, o.mBuffer) := bind_of_undefined hdestroy
  have hbuffer : onBuffer (destroyRange (n + 1)) o = (.undefined, o) := by
    rw [onBuffer, zoom, hrange]
  have hclear : clear o = (do onBuffer (destroyRange o.mSize); setSize 0) o := by
    have hempty : (gets Vec.empty : Prog (Vec T) Exn Bool) o = (.ok o.empty, o) := rfl
    rw [clear, bind_of_ok hempty, if_neg hsome]
    rfl
  rw [hclear, hn, bind_of_undefined hbuffer]

/-! ## Throwing moves -/

/-- The move loop ends at the first move that throws. -/
theorem moveLoop_stops (h : Rep c v []) (ho : Rep d o ys) (hfit : ys.length ≤ c)
    (hk : FirstThrow E .move ys.length k) :
    wp (moveLoop c E) (fun _ _ => False)
      (fun e s => e = .element ∧ Rep c s.1 (ys.take k)
        ∧ ∃ zs, zs.length = ys.length ∧ MovedOut k s.2 zs) (v, o) := by
  refine wp_mono (moveLoop_spec h ho hfit) ?_ ?_
  · rintro _ s ⟨-, -, hnone⟩
    exact hk.not_noneThrows hnone
  · rintro e s ⟨he, j, hj, hth, hbefore, hr, hs⟩
    obtain rfl := hk.unique hth hbefore
    exact ⟨he, hr, _, List.length_set, hs⟩

/-- The members that move `other` into `*this`. -/
inductive Moving where
  | construct
  | assign

/-- Overload resolution picks the member by whether the capacities agree. -/
def Moving.member (c d : Nat) (E : Element T) : Moving → Prog (Vec T × Vec T) Exn Unit
  | .construct => if d = c then moveConstruct c E else moveConstructOther c E
  | .assign => if d = c then moveAssign c E false else moveAssignOther c d E

/-- What `*this` is when the member starts: empty storage, or a vector. -/
def Moving.Starts (c : Nat) (v : Vec T) : Moving → Prop
  | .construct => Rep c v []
  | .assign => ∃ xs, Rep c v xs

/-- Both objects are in order, `*this` only if there is one: a constructor that throws
    leaves none. -/
structure Moving.LeavesDestroyable (m : Moving) (s : Vec T × Vec T) : Prop where
  target : m = .assign → Destroyable s.1
  source : Destroyable s.2

theorem Moving.member_stops {m : Moving} (hv : m.Starts c v) (ho : Rep d o ys)
    (hfit : ys.length ≤ c) (hk : FirstThrow E .move ys.length k) :
    wp (m.member c d E) (fun _ _ => False)
      (fun e s => e = .element ∧ Rep c s.1 (ys.take k)
        ∧ ∃ zs, zs.length = ys.length ∧ MovedOut k s.2 zs) (v, o) := by
  have hrefused : ¬ c < ys.length := Nat.not_lt.mpr hfit
  -- the loop is followed by `other.m_size = 0`, which is not reached
  have hloop : ∀ w, Rep c w [] → wp (do moveLoop c E; onOther (setSize 0)) (fun _ _ => False)
      (fun e s => e = .element ∧ Rep c s.1 (ys.take k)
        ∧ ∃ zs, zs.length = ys.length ∧ MovedOut k s.2 zs) (w, o) := by
    intro w hw
    rw [wp_bind]
    exact wp_mono (moveLoop_stops hw ho hfit hk) (fun _ _ hf => hf.elim) (fun _ _ hf => hf)
  cases m with
  | construct =>
      rw [Moving.member, wp_ite]
      exact ⟨fun _ => hloop v hv,
        fun _ => checkSize_guard ho (fun _ => hloop v hv) (fun hc => absurd hc hrefused)⟩
  | assign =>
      obtain ⟨xs, hr⟩ := hv
      rw [Moving.member, wp_ite]
      exact ⟨fun _ => onThis_emptied (clear_spec hr) hloop,
        fun _ => checkSizeIfLarger_guard ho (fun _ => onThis_emptied (clear_spec hr) hloop)
          (fun hc => absurd hc hrefused)⟩

/-- **When a throwing move leaves both vectors destroyable**: only if it was the move of
    the first element. -/
theorem throwing_move_leaves_destroyable_iff {m : Moving} (hv : m.Starts c v) (ho : Rep d o ys)
    (hfit : ys.length ≤ c) (hk : FirstThrow E .move ys.length k) :
    (m.member c d E (v, o)).1 = .threw .element
      ∧ (m.LeavesDestroyable (m.member c d E (v, o)).2 ↔ k = 0) := by
  obtain ⟨e, hthrew, rfl, hr, zs, hlen, hs⟩ := wp_threw (Moving.member_stops hv ho hfit hk)
  have hsource := hs.exact_iff (by rw [hlen]; exact hk.lt)
  refine ⟨hthrew, ?_⟩
  constructor
  · intro hleaves
    exact hsource.mp hleaves.source.exact
  · intro hzero
    exact ⟨fun _ => destroyable_iff.mpr hr.exact, destroyable_iff.mpr (hsource.mpr hzero)⟩

/-- An element type whose move of the element in place `k` throws. -/
def throwsAtMove (k : Nat) : Element Nat :=
  ⟨0, fun _ => 0, fun _ => 0, fun kind i => kind == .move && i == k⟩

/-- The elements 7 and 8. -/
def sevenEight : Vec Nat := ⟨2, fun i => [7, 8][i]?⟩

theorem sevenEight_rep : Rep 2 sevenEight [7, 8] := ⟨rfl, Nat.le_refl _, fun _ => rfl⟩

/-- An empty vector. -/
def noElements : Vec Nat := ⟨0, fun _ => none⟩

theorem noElements_rep (c : Nat) : Rep c noElements [] := ⟨rfl, Nat.zero_le c, holds_empty⟩

theorem firstMove_leaves_destroyable :
    Moving.assign.LeavesDestroyable
      (Moving.assign.member 3 2 (throwsAtMove 0) (noElements, sevenEight)).2 := by
  have hfirst : FirstThrow (throwsAtMove 0) .move [7, 8].length 0 :=
    ⟨by decide, rfl, noneThrows_zero _ _⟩
  exact (throwing_move_leaves_destroyable_iff (m := .assign) ⟨[], noElements_rep 3⟩
    sevenEight_rep (by decide) hfirst).2.mpr rfl

/-- The move of 8 throws: the source still counts two elements, and the place of the first
    is empty. -/
theorem secondMove_leaves_gap :
    (Moving.assign.member 2 2 (throwsAtMove 1) (noElements, sevenEight)).1 = .threw .element
      ∧ ¬ Moving.assign.LeavesDestroyable
          (Moving.assign.member 2 2 (throwsAtMove 1) (noElements, sevenEight)).2 := by
  refine ⟨rfl, fun hleaves => ?_⟩
  have hfull := (hleaves.source.exact 0).mpr (by decide)
  exact absurd hfull (by decide)

/-! ## Throwing copies in constructors -/

/-- The number of elements in a buffer of `c` places. -/
def live (c : Nat) (v : Vec T) : Nat := (List.range c).countP fun i => (v.mBuffer i).isSome

theorem countP_range_lt {n : Nat} (hn : n ≤ c) : (List.range c).countP (fun i => i < n) = n := by
  induction c with
  | zero => exact (Nat.le_zero.mp hn).symm
  | succ c ih =>
      rw [List.range_succ, List.countP_append, List.countP_singleton]
      by_cases hc : n ≤ c
      · rw [ih hc, if_neg (by simpa using hc), Nat.add_zero]
      · obtain rfl : n = c + 1 := by omega
        have hall : (List.range c).countP (fun i => i < c + 1) = (List.range c).length := by
          refine List.countP_eq_length.mpr fun i hi => ?_
          have := List.mem_range.mp hi
          exact decide_eq_true (by omega)
        rw [hall, List.length_range, if_pos (by simp)]

theorem Rep.live_eq (h : Rep c v xs) : live c v = xs.length := by
  rw [live, ← countP_range_lt h.fits]
  refine List.countP_congr fun i _ => ?_
  rw [h.holds.isSome_iff, decide_eq_true_iff]

/-- Every element constructed in the new vector's buffer has been destroyed, and there are
    as many elements as before. -/
structure LeaksNothing (c : Nat) (before after : Vec T) : Prop where
  destroyed : ∀ i, after.mBuffer i = none
  balanced : live c after = live c before

/-- A buffer with the first `k` elements of a longer list has leaked unless `k = 0`. -/
theorem leaksNothing_iff {before after : Vec T} (hv : Rep c before [])
    (h : Rep c after (ys.take k)) (hk : k < ys.length) : LeaksNothing c before after ↔ k = 0 := by
  have hlen : (ys.take k).length = k := by
    rw [List.length_take]
    omega
  constructor
  · intro hleaks
    have hbalanced := hleaks.balanced
    rwa [h.live_eq, hv.live_eq, hlen] at hbalanced
  · rintro rfl
    exact ⟨h.holds, by rw [h.live_eq, hv.live_eq, List.take_zero]⟩

/-- The initializer-list constructor ends at the first copy that throws. -/
theorem initConstruct_stops (hv : Rep c v []) (hfit : ys.length ≤ c)
    (hk : FirstThrow E .copy ys.length k) :
    wp (initConstruct c E ys) (fun _ _ => False)
      (fun e v' => e = .element ∧ Rep c v' (ys.take k)) v := by
  rw [initConstruct, wp_ite]
  refine ⟨fun hc => absurd hc (Nat.not_lt.mpr hfit), fun _ => ?_⟩
  refine wp_mono (initLoop_spec ys hv (by simpa using hfit)) ?_ ?_
  · rintro _ v' ⟨-, hnone⟩
    refine hk.not_noneThrows fun j hj => ?_
    simpa using hnone j hj
  · rintro e v' ⟨he, j, hj, hth, hbefore, hr⟩
    obtain rfl : j = k := hk.unique (by simpa using hth) fun i hi => by simpa using hbefore i hi
    exact ⟨he, hr⟩

/-- The copy loop ends at the first copy that throws. -/
theorem copyLoop_stops (h : Rep c v []) (ho : Rep d o ys) (hfit : ys.length ≤ c)
    (hk : FirstThrow E .copy ys.length k) :
    wp (copyLoop c E) (fun _ _ => False)
      (fun e s => e = .element ∧ Rep c s.1 (ys.take k) ∧ s.2 = o) (v, o) := by
  refine wp_mono (copyLoop_spec h ho hfit) ?_ ?_
  · rintro _ s ⟨-, -, hnone⟩
    exact hk.not_noneThrows hnone
  · rintro e s ⟨he, ⟨j, hj, hth, hbefore, hr⟩, hs⟩
    obtain rfl := hk.unique hth hbefore
    exact ⟨he, hr, hs⟩

/-- The copy constructor that overload resolution picks. -/
def copyConstructor (c d : Nat) (E : Element T) : Prog (Vec T × Vec T) Exn Unit :=
  if d = c then copyConstruct c E else copyConstructOther c E

theorem copyConstructor_stops (hv : Rep c v []) (ho : Rep d o ys) (hfit : ys.length ≤ c)
    (hk : FirstThrow E .copy ys.length k) :
    wp (copyConstructor c d E) (fun _ _ => False)
      (fun e s => e = .element ∧ Rep c s.1 (ys.take k) ∧ s.2 = o) (v, o) := by
  rw [copyConstructor, wp_ite]
  exact ⟨fun _ => copyLoop_stops hv ho hfit hk,
    fun _ => checkSize_guard ho (fun _ => copyLoop_stops hv ho hfit hk)
      (fun hc => absurd hc (Nat.not_lt.mpr hfit))⟩

/-- **When a construction that fails leaks nothing**: from a list or from another vector,
    only if the copy of the first element throws.  (The source is unchanged in any case.) -/
theorem failed_construction_leaks_nothing_iff (hv : Rep c v []) (hfit : ys.length ≤ c)
    (hk : FirstThrow E .copy ys.length k) :
    ((initConstruct c E ys v).1 = .threw .element
      ∧ (LeaksNothing c v (initConstruct c E ys v).2 ↔ k = 0))
    ∧ ∀ d o, Rep d o ys → (copyConstructor c d E (v, o)).1 = .threw .element
      ∧ ((LeaksNothing c v (copyConstructor c d E (v, o)).2.1
          ∧ (copyConstructor c d E (v, o)).2.2 = o) ↔ k = 0) := by
  constructor
  · obtain ⟨e, hthrew, rfl, hr⟩ := wp_threw (initConstruct_stops hv hfit hk)
    exact ⟨hthrew, leaksNothing_iff hv hr hk.lt⟩
  · intro d o ho
    obtain ⟨e, hthrew, rfl, hr, hs⟩ := wp_threw (copyConstructor_stops hv ho hfit hk)
    refine ⟨hthrew, ?_⟩
    rw [and_iff_left hs]
    exact leaksNothing_iff hv hr hk.lt

/-- An element type whose copy of the element in place `k` throws. -/
def throwsAtCopy (k : Nat) : Element Nat :=
  ⟨0, fun _ => 0, fun _ => 0, fun kind i => kind == .copy && i == k⟩

theorem firstCopy_leaks_nothing :
    LeaksNothing 2 noElements (initConstruct 2 (throwsAtCopy 0) [7, 8] noElements).2 := by
  have hfirst : FirstThrow (throwsAtCopy 0) .copy [7, 8].length 0 :=
    ⟨by decide, rfl, noneThrows_zero _ _⟩
  exact (failed_construction_leaks_nothing_iff (noElements_rep 2) (by decide) hfirst).1.2.mpr rfl

/-- The copy of 8 throws: the copy of 7 is never destroyed. -/
theorem secondCopy_leaks :
    (copyConstructor 2 2 (throwsAtCopy 1) (noElements, sevenEight)).1 = .threw .element
      ∧ ¬ LeaksNothing 2 noElements
          (copyConstructor 2 2 (throwsAtCopy 1) (noElements, sevenEight)).2.1 := by
  refine ⟨rfl, fun hleaks => ?_⟩
  exact absurd (hleaks.destroyed 0) (by decide)

/-! ## `resize` beyond the capacity -/

/-- A vector stands for one list, and a list has one vector within a capacity. -/
theorem Rep.unique {v' : Vec T} (h : Rep c v xs) (h' : Rep c v' xs) : v' = v := by
  obtain ⟨b, rfl, hb⟩ := h.eq_mk
  obtain ⟨b', rfl, hb'⟩ := h'.eq_mk
  have hsame : b' = b := funext fun i => (hb' i).trans (hb i).symm
  rw [hsame]

theorem Rep.list_unique (h : Rep c v xs) (h' : Rep c v ys) : xs = ys := by
  refine List.ext_getElem? fun i => ?_
  rw [← h.holds i, h'.holds i]

/-- `resize(n)` makes the vector `n` elements long, the new ones being `T()`, or refuses
    and does nothing. -/
structure AllOrNothing (c : Nat) (E : Element T) (v : Vec T) (xs : List T) (n : Nat) : Prop where
  resizes : n ≤ c → (resize c E n v).1 = .ok () ∧ Rep c (resize c E n v).2 (resized E n xs)
  refuses : c < n → resize c E n v = (.threw .lengthError, v)

/-- Without exceptions of `T`, what exceeds the capacity is refused when the vector is
    full. -/
theorem resize_beyond (hE : E.NoThrow) (h : Rep c v xs) {n : Nat} (hn : c < n) :
    ∃ v', resize c E n v = (.threw .lengthError, v')
      ∧ Rep c v' (xs ++ List.replicate (c - xs.length) E.dflt) := by
  have hfit := h.fits
  rcases wp_cases (resize_spec h n) with ⟨_, -, hr⟩ | ⟨e, hthrew, j, hj, hr, hwhy⟩
  · have := hr.fits
    rw [length_resized] at this
    omega
  · rcases hwhy with ⟨rfl, hfull⟩ | ⟨-, hth⟩
    · obtain rfl : j = c - xs.length := by omega
      exact ⟨_, Prod.ext hthrew rfl, hr⟩
    · rw [hE] at hth
      exact nomatch hth

/-- **When `resize` is all-or-nothing**: unless it is to exceed the capacity of a vector
    that is not full, which it fills up before it refuses. -/
theorem resize_all_or_nothing_iff (hE : E.NoThrow) (h : Rep c v xs) (n : Nat) :
    AllOrNothing c E v xs n ↔ n ≤ c ∨ xs.length = c := by
  have hfit := h.fits
  constructor
  · intro hall
    by_cases hn : n ≤ c
    · exact Or.inl hn
    · obtain ⟨v', hrun, hr⟩ := resize_beyond hE h (Nat.not_le.mp hn)
      have hsame := hrun.symm.trans (hall.refuses (Nat.not_le.mp hn))
      obtain ⟨-, rfl⟩ := Prod.mk.inj hsame
      have hlen := congrArg List.length (h.list_unique hr)
      rw [List.length_append, List.length_replicate] at hlen
      exact Or.inr (by omega)
  · intro hwhen
    constructor
    · intro hn
      rcases wp_cases (resize_spec h n) with ⟨_, hok, hr⟩ | ⟨e, -, j, hj, -, hwhy⟩
      · exact ⟨hok, hr⟩
      · rcases hwhy with ⟨-, hfull⟩ | ⟨-, hth⟩
        · omega
        · rw [hE] at hth
          exact nomatch hth
    · intro hn
      obtain ⟨v', hrun, hr⟩ := resize_beyond hE h hn
      have hfull : c - xs.length = 0 := by omega
      rw [hfull, List.replicate_zero, List.append_nil] at hr
      rw [hrun, h.unique hr]

/-- An element type that never throws. -/
def neverThrows : Element Nat := ⟨0, fun _ => 0, fun _ => 0, fun _ _ => false⟩

theorem resizeToThree_all_or_nothing : AllOrNothing 2 neverThrows sevenEight [7, 8] 3 :=
  (resize_all_or_nothing_iff (fun _ _ => rfl) sevenEight_rep 3).mpr (Or.inr rfl)

/-- The empty vector of capacity 2 has two elements after `resize(3)` has thrown. -/
theorem resizeBeyond_fills :
    (resize 2 neverThrows 3 noElements).1 = .threw .lengthError
      ∧ (resize 2 neverThrows 3 noElements).2.mSize = 2
      ∧ ¬ AllOrNothing 2 neverThrows noElements [] 3 := by
  refine ⟨rfl, rfl, fun hall => ?_⟩
  have hkept := congrArg (fun r => r.2.mSize) (hall.refuses (by decide))
  exact absurd hkept (by decide)

end FixedCapacityVector
