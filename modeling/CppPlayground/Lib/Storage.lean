import Mathlib.Logic.Function.Basic
import CppPlayground.Lib.Program

/-! # Raw storage: slots that hold a constructed object or nothing

    `Slots T` is a piece of uninitialised storage cut into places for objects of type
    `T`; `none` is a place without an object.  Constructing over an object or outside
    the storage, and reading or destroying where no object is, are undefined behaviour,
    so a program with a `wp` has performed none of them.

    `Element T` collects what the containers ask of `T`: which constructor calls throw
    and what a move leaves behind.  Copying and moving reproduce the value. -/

namespace Storage

open Program

variable {T ε : Type}

/-- Object storage, place by place. -/
abbrev Slots (T : Type) : Type := Nat → Option T

/-- The constructors a container calls. -/
inductive Ctor where
  | copy
  | move
  | args
  deriving DecidableEq, Repr

/-- The element type as its containers see it.  `throws k i` says whether the call of a
    `k`-constructor that builds the object of place `i` throws. -/
structure Element (T : Type) where
  /-- `T()` -/
  dflt : T
  /-- the value a completed move leaves in its source -/
  moved : T → T
  /-- the value a throwing move leaves in its source -/
  halfMoved : T → T
  throws : Ctor → Nat → Bool

/-- No constructor throws. -/
def Element.NoThrow (E : Element T) : Prop := ∀ k i, E.throws k i = false

/-- `new (place i) T(v)` in storage of `cap` places; `fails` is the exception the
    constructor throws, if any. -/
def constructAt (cap i : Nat) (fails : Option ε) (v : T) : Prog (Slots T) ε Unit := fun s =>
  if i < cap ∧ (s i).isNone then
    match fails with
    | some e => (.threw e, s)
    | none => (.ok (), Function.update s i (some v))
  else (.undefined, s)

/-- Read the object in place `i`. -/
def load (i : Nat) : Prog (Slots T) ε T := access fun s => s i

/-- Overwrite the object in place `i`. -/
def assignAt (i : Nat) (v : T) : Prog (Slots T) ε Unit := fun s =>
  if (s i).isSome then (.ok (), Function.update s i (some v)) else (.undefined, s)

/-- `std::destroy_at(place i)`. -/
def destroyAt (i : Nat) : Prog (Slots T) ε Unit := fun s =>
  if (s i).isSome then (.ok (), Function.update s i none) else (.undefined, s)

variable {Q : Unit → Slots T → Prop} {E : ε → Slots T → Prop} {s : Slots T}

@[simp] theorem wp_constructAt (cap i : Nat) (fails : Option ε) (v : T) :
    wp (constructAt cap i fails v) Q E s
      ↔ i < cap ∧ s i = none ∧ (∀ e, fails = some e → E e s)
        ∧ (fails = none → Q () (Function.update s i (some v))) := by
  simp only [wp, constructAt]
  by_cases h : i < cap ∧ (s i).isNone
  · obtain ⟨hi, hs⟩ := h
    have hs' : s i = none := by simpa using hs
    cases fails <;> simp [hi, hs', Outcome.Meets]
  · rw [if_neg h]
    constructor
    · exact False.elim
    · rintro ⟨hi, hs, -, -⟩
      exact h ⟨hi, by simp [hs]⟩

@[simp] theorem wp_load (i : Nat) {Q : T → Slots T → Prop} :
    wp (load i) Q E s ↔ ∃ v, s i = some v ∧ Q v s :=
  wp_access _

@[simp] theorem wp_assignAt (i : Nat) (v : T) :
    wp (assignAt i v) Q E s
      ↔ (s i).isSome ∧ Q () (Function.update s i (some v)) := by
  rw [wp, assignAt]
  by_cases h : (s i).isSome <;> simp [h, Outcome.Meets]

@[simp] theorem wp_destroyAt (i : Nat) :
    wp (destroyAt i) Q E s ↔ (s i).isSome ∧ Q () (Function.update s i none) := by
  rw [wp, destroyAt]
  by_cases h : (s i).isSome <;> simp [h, Outcome.Meets]

/-! ## Where an operation stops -/

/-- A constructor that returns has constructed inside the storage. -/
theorem wlp_constructAt {cap i : Nat} {fails : Option ε} {v : T} {U : Slots T → Prop}
    (hQ : i < cap → fails = none → Q () (Function.update s i (some v)))
    (hE : ∀ e, fails = some e → E e s) (hU : U s) :
    wlp (constructAt cap i fails v) Q E U s := by
  unfold wlp constructAt
  by_cases h : i < cap ∧ (s i).isNone
  · rw [if_pos h]
    cases fails with
    | some e => exact hE e rfl
    | none => exact hQ h.1 rfl
  · rw [if_neg h]
    exact hU

theorem neverThrows_load (i : Nat) : NeverThrows (load i : Prog (Slots T) ε T) :=
  neverThrows_access _

theorem neverThrows_assignAt (i : Nat) (v : T) :
    NeverThrows (assignAt i v : Prog (Slots T) ε Unit) := by
  intro s e
  unfold assignAt
  by_cases h : (s i).isSome <;> simp [h]

theorem neverThrows_destroyAt (i : Nat) : NeverThrows (destroyAt i : Prog (Slots T) ε Unit) := by
  intro s e
  unfold destroyAt
  by_cases h : (s i).isSome <;> simp [h]

/-! ## Another type of objects -/

section Along

variable {U : Type}

/-- Every object seen through a map. -/
def Slots.map (f : T → U) (s : Slots T) : Slots U := fun i => (s i).map f

theorem Slots.map_update (f : T → U) (s : Slots T) (i : Nat) (v : Option T) :
    Slots.map f (Function.update s i v) = Function.update (Slots.map f s) i (v.map f) := by
  funext j
  by_cases hj : j = i
  · subst hj
    rw [Slots.map, Function.update_self, Function.update_self]
  · rw [Slots.map, Function.update_of_ne hj, Function.update_of_ne hj, Slots.map]

theorem maps_constructAt (f : T → U) (cap i : Nat) (fails : Option ε) (v : T) :
    Maps (Slots.map f) id (constructAt cap i fails v) (constructAt cap i fails (f v)) := by
  intro s
  unfold constructAt
  by_cases h : i < cap ∧ (s i).isNone
  · rw [if_pos h, if_pos (by rwa [Slots.map, Option.isNone_map])]
    cases fails with
    | some e => rfl
    | none =>
        show (Outcome.ok (), Function.update (Slots.map f s) i ((some v).map f)) = _
        rw [← Slots.map_update]
        rfl
  · rw [if_neg h, if_neg (by rwa [Slots.map, Option.isNone_map])]
    rfl

theorem maps_load (f : T → U) (i : Nat) :
    Maps (Slots.map f) f (load i : Prog (Slots T) ε T) (load i) := by
  intro s
  show access (fun s => s i) (Slots.map f s) = _
  rw [load, access, access, Slots.map]
  cases s i <;> rfl

theorem maps_assignAt (f : T → U) (i : Nat) (v : T) :
    Maps (Slots.map f) id (assignAt i v : Prog (Slots T) ε Unit) (assignAt i (f v)) := by
  intro s
  rw [assignAt, assignAt, Slots.map, Option.isSome_map]
  by_cases h : (s i).isSome
  · rw [if_pos h, if_pos h]
    show (Outcome.ok (), Function.update (Slots.map f s) i ((some v).map f)) = _
    rw [← Slots.map_update]
    rfl
  · rw [if_neg h, if_neg h]
    rfl

theorem maps_destroyAt (f : T → U) (i : Nat) :
    Maps (Slots.map f) id (destroyAt i : Prog (Slots T) ε Unit) (destroyAt i) := by
  intro s
  rw [destroyAt, destroyAt, Slots.map, Option.isSome_map]
  by_cases h : (s i).isSome
  · rw [if_pos h, if_pos h]
    show (Outcome.ok (), Function.update (Slots.map f s) i ((none : Option T).map f)) = _
    rw [← Slots.map_update]
    rfl
  · rw [if_neg h, if_neg h]
    rfl

end Along

/-! ## Storage that holds a list -/

/-- The places `0, 1, …` hold `xs` in order and every other place is empty. -/
def Holds (s : Slots T) (xs : List T) : Prop := ∀ i, s i = xs[i]?

theorem holds_empty : Holds (fun _ => none : Slots T) [] := fun _ => rfl

/-- A held list is constructed exactly below its length. -/
theorem Holds.isSome_iff {s : Slots T} {xs : List T} (h : Holds s xs) (i : Nat) :
    (s i).isSome ↔ i < xs.length := by
  rw [h i]
  simp

theorem Holds.length_none {s : Slots T} {xs : List T} (h : Holds s xs) :
    s xs.length = none := by
  rw [h]
  exact List.getElem?_eq_none (Nat.le_refl _)

/-- Constructing behind the last element appends it. -/
theorem Holds.concat {s : Slots T} {xs : List T} (h : Holds s xs) (v : T) :
    Holds (Function.update s xs.length (some v)) (xs ++ [v]) := by
  intro i
  by_cases hi : i = xs.length
  · subst hi; simp
  · rw [Function.update_of_ne hi, h i, List.getElem?_append]
    by_cases hlt : i < xs.length
    · rw [if_pos hlt]
    · rw [if_neg hlt, List.getElem?_eq_none (by omega),
        List.getElem?_eq_none (by simp; omega)]

/-- Destroying the last element drops it. -/
theorem Holds.dropLast {s : Slots T} {xs : List T} (h : Holds s xs) (hne : xs ≠ []) :
    Holds (Function.update s (xs.length - 1) none) xs.dropLast := by
  have hpos : 0 < xs.length := List.length_pos_iff.mpr hne
  intro i
  by_cases hi : i = xs.length - 1
  · subst hi
    rw [Function.update_self, List.getElem?_eq_none (by simp)]
  · rw [Function.update_of_ne hi, h i, List.getElem?_dropLast]
    by_cases hlt : i < xs.length - 1
    · rw [if_pos hlt]
    · rw [if_neg hlt, List.getElem?_eq_none (by omega)]

/-- The places below `i` are empty, the others hold the rest of `xs`. -/
def HoldsFrom (i : Nat) (s : Slots T) (xs : List T) : Prop :=
  ∀ j, s j = if j < i then none else xs[j]?

theorem Holds.from_zero {s : Slots T} {xs : List T} (h : Holds s xs) : HoldsFrom 0 s xs := by
  intro j
  rw [h j, if_neg (Nat.not_lt_zero j)]

theorem HoldsFrom.all {s : Slots T} {xs : List T} (h : HoldsFrom xs.length s xs) :
    Holds s [] := by
  intro j
  rw [h j]
  by_cases hj : j < xs.length
  · rw [if_pos hj]; rfl
  · rw [if_neg hj, List.getElem?_eq_none (by omega)]; rfl

theorem HoldsFrom.getElem {i : Nat} {s : Slots T} {xs : List T} (h : HoldsFrom i s xs)
    (hi : i < xs.length) : s i = some xs[i] := by
  rw [h i, if_neg (Nat.lt_irrefl i), List.getElem?_eq_getElem hi]

/-- Emptying the first place that is still full. -/
theorem HoldsFrom.erase {i : Nat} {s : Slots T} {xs : List T} (h : HoldsFrom i s xs) :
    HoldsFrom (i + 1) (Function.update s i none) xs := by
  intro j
  by_cases hj : j = i
  · subst hj
    rw [Function.update_self, if_pos (Nat.lt_succ_self j)]
  · rw [Function.update_of_ne hj, h j]
    by_cases hlt : j < i
    · rw [if_pos hlt, if_pos (by omega)]
    · rw [if_neg hlt, if_neg (by omega)]

/-- Overwriting the first place that is still full. -/
theorem HoldsFrom.set {i : Nat} {s : Slots T} {xs : List T} (h : HoldsFrom i s xs)
    (hi : i < xs.length) (v : T) :
    HoldsFrom i (Function.update s i (some v)) (xs.set i v) := by
  intro j
  by_cases hj : j = i
  · subst hj
    rw [Function.update_self, if_neg (Nat.lt_irrefl j), List.getElem?_set_self hi]
  · rw [Function.update_of_ne hj, h j, List.getElem?_set_ne (Ne.symm hj)]

/-- `std::destroy` of the places `0 … n - 1`, in order. -/
def destroyRange (n : Nat) : Prog (Slots T) ε Unit := forRange n destroyAt

theorem neverThrows_destroyRange (n : Nat) :
    NeverThrows (destroyRange n : Prog (Slots T) ε Unit) :=
  neverThrows_forRange n neverThrows_destroyAt

/-- Destroying as many places as a held list has empties the storage. -/
theorem wp_destroyRange {s : Slots T} {xs : List T} (h : Holds s xs) :
    wp (destroyRange xs.length) (fun _ s' => Holds s' []) E s := by
  refine wp_mono (wp_forRange (fun i s => HoldsFrom i s xs) ?_ h.from_zero)
    (fun _ _ h => h.all) (fun _ _ h => h)
  intro i s hi hI
  rw [wp_destroyAt]
  exact ⟨by rw [hI.getElem hi]; rfl, hI.erase⟩

end Storage
