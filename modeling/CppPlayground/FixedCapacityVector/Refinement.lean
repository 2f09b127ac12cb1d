import CppPlayground.Lib.System
import CppPlayground.FixedCapacityVector.Specs

/-! # `FixedCapacityVector` refines a family of bounded lists

    A family of vectors `FixedCapacityVector<T, c i>` lives in storage indexed by `ι`.
    `vectors c E` runs the members of `Model` on it in any order; `boundedLists c dflt`
    is the purpose of the class: a family of lists, each no longer than its capacity.
    For an element type that does not throw, `refines` is a simulation between the two,
    and `runs_refine_boundedLists` reads it over whole runs. -/

namespace FixedCapacityVector

open Program Storage Transition

variable {T ι : Type}

/-! ## A family of vector objects -/

/-- Storage for one vector: whether the object exists, and the bytes. -/
structure Obj (T : Type) where
  alive : Bool
  vec : Vec T

/-- The public operations; `i` is the object they are called on, `j` is `other`. -/
inductive Op (ι T : Type) where
  | defaultConstruct (i : ι)
  | initConstruct (i : ι) (init : List T)
  | copyConstruct (i j : ι)
  | moveConstruct (i j : ι)
  | copyAssign (i j : ι)
  | moveAssign (i j : ι)
  | pushBackCopy (i : ι) (value : T)
  | pushBackMove (i : ι) (value : T)
  | emplaceBack (i : ι) (value : T)
  | popBack (i : ι)
  | clear (i : ι)
  | resize (i : ι) (newSize : Nat)
  | destruct (i : ι)

/-- The object an operation is called on. -/
def Op.target : Op ι T → ι
  | .defaultConstruct i | .initConstruct i _ | .copyConstruct i _ | .moveConstruct i _
  | .copyAssign i _ | .moveAssign i _ | .pushBackCopy i _ | .pushBackMove i _
  | .emplaceBack i _ | .popBack i | .clear i | .resize i _ | .destruct i => i

/-- What the language asks of a call: constructors run on storage without an object,
    everything else on objects.  `resize` goes up to the capacity here. -/
def Legal (c : ι → Nat) (alive : ι → Bool) : Op ι T → Prop
  | .defaultConstruct i | .initConstruct i _ => alive i = false
  | .copyConstruct i j | .moveConstruct i j => alive i = false ∧ alive j = true
  | .copyAssign i j | .moveAssign i j => alive i = true ∧ alive j = true
  | .resize i n => alive i = true ∧ n ≤ c i
  | .pushBackCopy i _ | .pushBackMove i _ | .emplaceBack i _ | .popBack i | .clear i
  | .destruct i => alive i = true

/-- Ends without a result of interest. -/
def ends {α : Type} (p : Prog (Vec T) Exn α) : Prog (Vec T) Exn Unit := do
  let _ ← p

section Systems

variable [DecidableEq ι]

/-- A member on the object `i`. -/
def onObject (w : ι → Obj T) (i : ι) (p : Prog (Vec T) Exn Unit) :
    Outcome Exn Unit × (ι → Obj T) :=
  let r := p (w i).vec
  (r.1, Function.update w i { w i with vec := r.2 })

/-- A constructor in the storage `i`: the object exists once the constructor returns. -/
def constructing (w : ι → Obj T) (i : ι) (p : Prog (Vec T) Exn Unit) :
    Outcome Exn Unit × (ι → Obj T) :=
  let r := p (Vec.uninitialised (w i).vec.mBuffer)
  (r.1, Function.update w i ⟨r.1 == .ok (), r.2⟩)

/-- A member on `i` with `j` as `other`. -/
def onObjects (w : ι → Obj T) (i j : ι) (p : Prog (Vec T × Vec T) Exn Unit) :
    Outcome Exn Unit × (ι → Obj T) :=
  let r := p ((w i).vec, (w j).vec)
  (r.1, Function.update (Function.update w j { w j with vec := r.2.2 }) i
    { w i with vec := r.2.1 })

/-- A constructor in `i` from `j`. -/
def constructingFrom (w : ι → Obj T) (i j : ι) (p : Prog (Vec T × Vec T) Exn Unit) :
    Outcome Exn Unit × (ι → Obj T) :=
  let r := p (Vec.uninitialised (w i).vec.mBuffer, (w j).vec)
  (r.1, Function.update (Function.update w j { w j with vec := r.2.2 }) i
    ⟨r.1 == .ok (), r.2.1⟩)

/-- One call.  Overload resolution picks the member by whether the capacities agree;
    `decide (i = j)` is `this == std::addressof(other)`. -/
def exec (c : ι → Nat) (E : Element T) (w : ι → Obj T) :
    Op ι T → Outcome Exn Unit × (ι → Obj T)
  | .defaultConstruct i => constructing w i (pure ())
  | .initConstruct i init => constructing w i (initConstruct (c i) E init)
  | .copyConstruct i j => constructingFrom w i j
      (if c j = c i then copyConstruct (c i) E else copyConstructOther (c i) E)
  | .moveConstruct i j => constructingFrom w i j
      (if c j = c i then moveConstruct (c i) E else moveConstructOther (c i) E)
  | .copyAssign i j => onObjects w i j
      (if c j = c i then copyAssign (c i) E (decide (i = j))
        else copyAssignOther (c i) (c j) E)
  | .moveAssign i j => onObjects w i j
      (if c j = c i then moveAssign (c i) E (decide (i = j))
        else moveAssignOther (c i) (c j) E)
  | .pushBackCopy i value => onObject w i (ends (pushBackCopy (c i) E value))
  | .pushBackMove i value => onObject w i (ends (pushBackMove (c i) E value))
  | .emplaceBack i value => onObject w i (ends (emplaceBack (c i) E value))
  | .popBack i => onObject w i popBack
  | .clear i => onObject w i clear
  | .resize i n => onObject w i (resize (c i) E n)
  | .destruct i =>
      let r := onObject w i destruct
      (r.1, Function.update r.2 i { r.2 i with alive := false })

/-- The family of vectors as a system: a label is a call and the way it ended. -/
def vectors (c : ι → Nat) (E : Element T) :
    System (ι → Obj T) (Op ι T × Outcome Exn Unit) where
  init w := ∀ i, (w i).alive = false ∧ Holds (w i).vec.mBuffer []
  step w a w' := Legal c (fun i => (w i).alive) a.1 ∧ exec c E w a.1 = (a.2, w')

end Systems

/-! ## The family of bounded lists -/

/-- The list at `i`, empty where there is none. -/
def contents (l : ι → Option (List T)) (i : ι) : List T := (l i).getD []

/-- The list an operation leaves at its target. -/
def result (dflt : T) (l : ι → Option (List T)) : Op ι T → List T
  | .defaultConstruct _ => []
  | .initConstruct _ init => init
  | .copyConstruct _ j | .moveConstruct _ j | .copyAssign _ j | .moveAssign _ j =>
      contents l j
  | .pushBackCopy i value | .pushBackMove i value | .emplaceBack i value =>
      contents l i ++ [value]
  | .popBack i => (contents l i).dropLast
  | .clear _ => []
  | .resize i n => (contents l i).take n ++ List.replicate (n - (contents l i).length) dflt
  | .destruct _ => []

section Lists

variable [DecidableEq ι]

/-- The family after an operation that succeeds: a moved-from list becomes empty, moving
    a list into itself changes nothing. -/
def after (dflt : T) (l : ι → Option (List T)) (op : Op ι T) : ι → Option (List T) :=
  match op with
  | .moveConstruct i j | .moveAssign i j =>
      if i = j then l else Function.update (Function.update l j (some [])) i
        (some (contents l j))
  | .destruct i => Function.update l i none
  | op => Function.update l op.target (some (result dflt l op))

/-- One operation on the lists: `pop_back` needs an element, and a list that would
    outgrow its capacity is refused.  A refused operation changes nothing. -/
def listExec (c : ι → Nat) (dflt : T) (l : ι → Option (List T)) (op : Op ι T) :
    Outcome Exn Unit × (ι → Option (List T)) :=
  match op with
  | .popBack i =>
      if (contents l i).isEmpty then (.threw .outOfRange, l)
      else (.ok (), after dflt l (.popBack i))
  | op =>
      if c op.target < (result dflt l op).length then (.threw .lengthError, l)
      else (.ok (), after dflt l op)

/-- The family of bounded lists as a system with the same labels. -/
def boundedLists (c : ι → Nat) (dflt : T) :
    System (ι → Option (List T)) (Op ι T × Outcome Exn Unit) where
  init l := ∀ i, l i = none
  step l a l' := Legal c (fun i => (l i).isSome) a.1 ∧ listExec c dflt l a.1 = (a.2, l')

end Lists

/-! ## The simulation -/

variable {c : ι → Nat} {E : Element T} {w : ι → Obj T} {l : ι → Option (List T)}

/-- An object stands for a list; storage without an object stands for no list and holds
    no element. -/
def Stands (c : Nat) (o : Obj T) : Option (List T) → Prop
  | none => o.alive = false ∧ Holds o.vec.mBuffer []
  | some xs => o.alive = true ∧ Rep c o.vec xs

/-- The vectors stand for the lists. -/
def Refines (c : ι → Nat) (w : ι → Obj T) (l : ι → Option (List T)) : Prop :=
  ∀ i, Stands (c i) (w i) (l i)

theorem Refines.alive_eq (h : Refines c w l) : (fun i => (w i).alive) = fun i => (l i).isSome := by
  funext i
  have hi := h i
  cases hl : l i with
  | none => rw [hl] at hi; exact hi.1
  | some xs => rw [hl] at hi; exact hi.1

/-- Where an object exists, it stands for the contents of its list. -/
theorem Refines.rep (h : Refines c w l) {i : ι} (hi : (w i).alive = true) :
    Rep (c i) (w i).vec (contents l i) ∧ l i = some (contents l i) := by
  have hs := h i
  cases hl : l i with
  | none => rw [hl] at hs; exact absurd (hs.1.symm.trans hi) (by decide)
  | some xs =>
      rw [hl] at hs
      have : contents l i = xs := by unfold contents; rw [hl]; rfl
      rw [this]
      exact ⟨hs.2, rfl⟩

/-- Where none exists, there is no list and the storage is empty. -/
theorem Refines.dead (h : Refines c w l) {i : ι} (hi : (w i).alive = false) :
    l i = none ∧ Holds (w i).vec.mBuffer [] := by
  have hs := h i
  cases hl : l i with
  | none => rw [hl] at hs; exact ⟨rfl, hs.2⟩
  | some xs => rw [hl] at hs; exact absurd (hs.1.symm.trans hi) (by decide)

/-- A constructor that starts there starts from an empty vector. -/
theorem Refines.raw (h : Refines c w l) {i : ι} (hi : (w i).alive = false) :
    Rep (c i) (Vec.uninitialised (w i).vec.mBuffer) [] :=
  rep_uninitialised _ (h.dead hi).2

/-- The outcome the lists prescribe, and the family that goes with it. -/
def place (c : Nat) (r : List T) (l l' : ι → Option (List T)) :
    Outcome Exn Unit × (ι → Option (List T)) :=
  if c < r.length then (.threw .lengthError, l) else (.ok (), l')

theorem place_ok {n : Nat} {r : List T} {l' : ι → Option (List T)} (h : r.length ≤ n) :
    place n r l l' = (.ok (), l') := if_neg (Nat.not_lt.mpr h)

theorem place_error {n : Nat} {r : List T} {l' : ι → Option (List T)} (h : n < r.length) :
    place n r l l' = (.threw .lengthError, l) := if_pos h

theorem place_threw {n : Nat} {r : List T} {l' : ι → Option (List T)} {e : Exn}
    (h : (place n r l l').1 = .threw e) : (place n r l l').2 = l := by
  by_cases hlt : n < r.length
  · rw [place_error hlt]
  · rw [place_ok (Nat.not_lt.mp hlt)] at h
    exact nomatch h

theorem place_lengthError_iff {n : Nat} {r : List T} {l' : ι → Option (List T)} :
    (place n r l l').1 = .threw .lengthError ↔ n < r.length := by
  by_cases hlt : n < r.length
  · rw [place_error hlt]
    exact ⟨fun _ => hlt, fun _ => rfl⟩
  · rw [place_ok (Nat.not_lt.mp hlt)]
    exact ⟨nofun, fun h => absurd h hlt⟩

/-- A concrete and an abstract call agree. -/
def Agree (c : ι → Nat) (x : Outcome Exn Unit × (ι → Obj T))
    (y : Outcome Exn Unit × (ι → Option (List T))) : Prop :=
  x.1 = y.1 ∧ Refines c x.2 y.2

variable [DecidableEq ι]

/-- Replacing one object and its list. -/
theorem Refines.update (h : Refines c w l) {i : ι} {o : Obj T} {r : Option (List T)}
    (hi : Stands (c i) o r) : Refines c (Function.update w i o) (Function.update l i r) := by
  intro k
  by_cases hk : k = i
  · subst hk
    rw [Function.update_self, Function.update_self]
    exact hi
  · rw [Function.update_of_ne hk, Function.update_of_ne hk]
    exact h k

/-- Replacing one object without a change of its list. -/
theorem Refines.update_same (h : Refines c w l) {i : ι} {o : Obj T}
    (hi : Stands (c i) o (l i)) : Refines c (Function.update w i o) l := by
  have := h.update hi
  rwa [Function.update_eq_self] at this

/-- What a member of one vector does for an element type that does not throw: it sets
    the list to `r`, or refuses an `r` that is too long and does nothing. -/
def Sets (c : Nat) (p : Prog (Vec T) Exn Unit) (v : Vec T) (r : List T) : Prop :=
  wp p (fun _ v' => r.length ≤ c ∧ Rep c v' r)
    (fun e v' => e = .lengthError ∧ c < r.length ∧ v' = v) v

/-- The same with a second vector, which it leaves standing for `zs`. -/
def SetsFrom (c d : Nat) (p : Prog (Vec T × Vec T) Exn Unit) (v o : Vec T)
    (r zs : List T) : Prop :=
  wp p (fun _ s => r.length ≤ c ∧ Rep c s.1 r ∧ Rep d s.2 zs)
    (fun e s => e = .lengthError ∧ c < r.length ∧ s = (v, o)) (v, o)

theorem onObject_agree (h : Refines c w l) {i : ι} (hi : (w i).alive = true)
    {p : Prog (Vec T) Exn Unit} {r : List T} (hp : Sets (c i) p (w i).vec r) :
    Agree c (onObject w i p) (place (c i) r l (Function.update l i (some r))) := by
  rcases wp_cases hp with ⟨_, ho, hr⟩ | ⟨e, ho, he, hlt, hv⟩
  · rw [place_ok hr.1]
    exact ⟨ho, h.update ⟨hi, hr.2⟩⟩
  · rw [place_error hlt]
    refine ⟨ho.trans (congrArg _ he), ?_⟩
    show Refines c (Function.update w i { w i with vec := (p (w i).vec).2 }) l
    rw [hv, Function.update_eq_self]
    exact h

theorem constructing_agree (h : Refines c w l) {i : ι} (hi : (w i).alive = false)
    {p : Prog (Vec T) Exn Unit} {r : List T}
    (hp : Sets (c i) p (Vec.uninitialised (w i).vec.mBuffer) r) :
    Agree c (constructing w i p) (place (c i) r l (Function.update l i (some r))) := by
  simp only [constructing]
  rcases wp_cases hp with ⟨_, ho, hr⟩ | ⟨e, ho, he, hlt, hv⟩
  · rw [place_ok hr.1, ho]
    exact ⟨rfl, h.update ⟨rfl, hr.2⟩⟩
  · obtain ⟨hl, hraw⟩ := h.dead hi
    rw [place_error hlt, ho, he, hv]
    refine ⟨rfl, h.update_same ?_⟩
    rw [hl]
    exact ⟨rfl, hraw⟩

theorem onObjects_agree (h : Refines c w l) {i j : ι} (hi : (w i).alive = true)
    (hj : (w j).alive = true) {p : Prog (Vec T × Vec T) Exn Unit}
    {r zs : List T} (hp : SetsFrom (c i) (c j) p (w i).vec (w j).vec r zs) :
    Agree c (onObjects w i j p)
      (place (c i) r l (Function.update (Function.update l j (some zs)) i (some r))) := by
  simp only [onObjects]
  rcases wp_cases hp with ⟨_, ho, hr⟩ | ⟨e, ho, he, hlt, hv⟩
  · rw [place_ok hr.1]
    have hother : Stands (c j) { w j with vec := (p ((w i).vec, (w j).vec)).2.2 } (some zs) :=
      ⟨hj, hr.2.2⟩
    exact ⟨ho, (h.update hother).update ⟨hi, hr.2.1⟩⟩
  · rw [place_error hlt, ho, he, hv]
    refine ⟨rfl, ?_⟩
    rw [Function.update_eq_self, Function.update_eq_self]
    exact h

theorem constructingFrom_agree (h : Refines c w l) {i j : ι} (hi : (w i).alive = false)
    (hj : (w j).alive = true) {p : Prog (Vec T × Vec T) Exn Unit} {r zs : List T}
    (hp : SetsFrom (c i) (c j) p (Vec.uninitialised (w i).vec.mBuffer) (w j).vec r zs) :
    Agree c (constructingFrom w i j p)
      (place (c i) r l (Function.update (Function.update l j (some zs)) i (some r))) := by
  simp only [constructingFrom]
  rcases wp_cases hp with ⟨_, ho, hr⟩ | ⟨e, ho, he, hlt, hv⟩
  · have hother : Stands (c j) { w j with vec := (p (_, (w j).vec)).2.2 } (some zs) :=
      ⟨hj, hr.2.2⟩
    rw [place_ok hr.1, ho]
    exact ⟨rfl, (h.update hother).update ⟨rfl, hr.2.1⟩⟩
  · obtain ⟨hl, hraw⟩ := h.dead hi
    rw [place_error hlt, ho, he, hv, Function.update_eq_self]
    refine ⟨rfl, h.update_same ?_⟩
    rw [hl]
    exact ⟨rfl, hraw⟩

/-! ## The members of an element type that does not throw -/

/-- An appending member without exceptions of `T`: it appends or finds the vector full. -/
theorem append_noThrow (hE : E.NoThrow) {k : Ctor} {n : Nat} {α : Type} {v : Vec T}
    {xs : List T} {x : T} {p : Prog (Vec T) Exn α} {Q : α → Vec T → Prop}
    (hQ : ∀ a v', Q a v' → xs.length < n ∧ Rep n v' (xs ++ [x]))
    (hp : wp p Q (AppendFails n E k v xs) v) : Sets n (ends p) v (xs ++ [x]) := by
  have hlen : (xs ++ [x]).length = xs.length + 1 := List.length_append
  rw [Sets, ends, wp_bind]
  refine wp_mono hp ?_ ?_
  · intro a v' hq
    obtain ⟨hlt, hr⟩ := hQ a v' hq
    rw [wp_pure, hlen]
    exact ⟨hlt, hr⟩
  · rintro e v' ⟨hv, ⟨he, hfull⟩ | ⟨-, -, hth⟩⟩
    · exact ⟨he, by omega, hv⟩
    · rw [hE] at hth
      exact nomatch hth

theorem setsFrom_of_copy (hE : E.NoThrow) {m n : Nat} {v o : Vec T} {ys : List T}
    {p : Prog (Vec T × Vec T) Exn Unit} (ho : Rep n o ys)
    (hp : wp p (fun _ s => ys.length ≤ m ∧ Rep m s.1 ys ∧ s.2 = o) (CopyFails m E v o ys)
      (v, o)) : SetsFrom m n p v o ys ys := by
  refine wp_mono hp ?_ ?_
  · rintro _ s ⟨hle, hr, hs⟩
    exact ⟨hle, hr, hs ▸ ho⟩
  · rintro e ⟨v', o'⟩ ⟨hs, ⟨he, hlt, hv⟩ | ⟨-, -, k, -, hth, -⟩⟩
    · exact ⟨he, hlt, Prod.ext hv hs⟩
    · rw [hE] at hth
      exact nomatch hth

theorem setsFrom_of_move (hE : E.NoThrow) {m n : Nat} {v o : Vec T} {ys : List T}
    {p : Prog (Vec T × Vec T) Exn Unit}
    (hp : wp p (fun _ s => ys.length ≤ m ∧ Rep m s.1 ys ∧ Rep n s.2 [])
      (MoveFails m E v o ys) (v, o)) : SetsFrom m n p v o ys [] := by
  refine wp_mono hp (fun _ _ hq => hq) ?_
  rintro e s (⟨he, hlt, hs⟩ | ⟨-, -, k, -, hth, -⟩)
  · exact ⟨he, hlt, hs⟩
  · rw [hE] at hth
    exact nomatch hth

theorem sets_initConstruct (hE : E.NoThrow) {m : Nat} {v : Vec T} (h : Rep m v [])
    (init : List T) : Sets m (initConstruct m E init) v init := by
  refine wp_mono (initConstruct_spec h init) (fun _ _ hq => hq) ?_
  rintro e v' (hf | ⟨-, -, k, -, hth, -⟩)
  · exact hf
  · rw [hE] at hth
    exact nomatch hth

theorem sets_resize (hE : E.NoThrow) {m n : Nat} {v : Vec T} {xs : List T} (h : Rep m v xs)
    (hn : n ≤ m) : Sets m (resize m E n) v (resized E n xs) := by
  refine wp_mono (resize_spec h n) ?_ ?_
  · intro _ v' hr
    exact ⟨by rw [length_resized]; exact hn, hr⟩
  · rintro e v' ⟨j, hj, -, ⟨-, hfull⟩ | ⟨-, hth⟩⟩
    · omega
    · rw [hE] at hth
      exact nomatch hth

theorem sets_clear {m : Nat} {v : Vec T} {xs : List T} (h : Rep m v xs) : Sets m clear v [] :=
  wp_mono (clear_spec h) (fun _ _ hr => ⟨Nat.zero_le m, hr⟩) (fun _ _ hf => hf.elim)

/-- A list replaced by itself. -/
theorem Refines.update_contents (h : Refines c w l) {i : ι} (hi : (w i).alive = true) :
    Function.update l i (some (contents l i)) = l := by
  rw [← (h.rep hi).2, Function.update_eq_self]

/-- Self-assignment, of either kind, changes nothing. -/
theorem onObjects_self (h : Refines c w l) {i : ι} {p : Prog (Vec T × Vec T) Exn Unit}
    (hp : ∀ s, p s = (.ok (), s)) : Agree c (onObjects w i i p) (.ok (), l) := by
  simp only [onObjects, hp]
  refine ⟨rfl, ?_⟩
  rw [Function.update_eq_self, Function.update_eq_self]
  exact h

/-- **One call.**  For an element type that does not throw, a legal call ends as the
    lists prescribe and leaves the vectors standing for the lists. -/
theorem exec_agree (hE : E.NoThrow) (h : Refines c w l) (op : Op ι T)
    (hlegal : Legal c (fun i => (w i).alive) op) :
    Agree c (exec c E w op) (listExec c E.dflt l op) := by
  cases op with
  | defaultConstruct i => exact constructing_agree h hlegal ⟨Nat.zero_le _, h.raw hlegal⟩
  | initConstruct i init =>
      exact constructing_agree h hlegal (sets_initConstruct hE (h.raw hlegal) init)
  | copyConstruct i j =>
      obtain ⟨hi, hj⟩ := hlegal
      have hagree := constructingFrom_agree h hi hj
        (setsFrom_of_copy hE (h.rep hj).1 (copyConstruct_selected (h.raw hi) (h.rep hj).1))
      rw [h.update_contents hj] at hagree
      exact hagree
  | moveConstruct i j =>
      obtain ⟨hi, hj⟩ := hlegal
      -- an object and storage without one are not the same
      have hne : i ≠ j := by
        rintro rfl
        exact absurd (hi.symm.trans hj) (by decide)
      have hagree := constructingFrom_agree h hi hj
        (setsFrom_of_move hE (moveConstruct_selected (h.raw hi) (h.rep hj).1))
      simpa only [exec, listExec, after, result, place, Op.target, if_neg hne] using hagree
  | copyAssign i j =>
      obtain ⟨hi, hj⟩ := hlegal
      by_cases hij : i = j
      · -- `this == std::addressof(other)`
        subst hij
        have hfit := (h.rep hi).1.fits
        have hlist : listExec c E.dflt l (.copyAssign i i) = (.ok (), l) := by
          refine (if_neg (Nat.not_lt.mpr hfit)).trans ?_
          exact congrArg _ (h.update_contents hi)
        rw [hlist]
        simp only [exec, decide_true, if_true]
        exact onObjects_self h (copyAssign_self (c i) E)
      · have hagree := onObjects_agree h hi hj
          (setsFrom_of_copy hE (h.rep hj).1 (copyAssign_selected (h.rep hi).1 (h.rep hj).1))
        rw [h.update_contents hj] at hagree
        show Agree c (onObjects w i j _) _
        rw [decide_eq_false hij]
        exact hagree
  | moveAssign i j =>
      obtain ⟨hi, hj⟩ := hlegal
      by_cases hij : i = j
      · subst hij
        have hfit := (h.rep hi).1.fits
        have hlist : listExec c E.dflt l (.moveAssign i i) = (.ok (), l) := by
          refine (if_neg (Nat.not_lt.mpr hfit)).trans ?_
          simp only [after, if_true]
        rw [hlist]
        simp only [exec, decide_true, if_true]
        exact onObjects_self h (moveAssign_self (c i) E)
      · have hagree := onObjects_agree h hi hj
          (setsFrom_of_move hE (moveAssign_selected (h.rep hi).1 (h.rep hj).1))
        simpa only [exec, listExec, after, result, place, Op.target, decide_eq_false hij,
          if_neg hij] using hagree
  | pushBackCopy i value =>
      exact onObject_agree h hlegal
        (append_noThrow hE (fun _ _ hq => hq) (pushBackCopy_spec (h.rep hlegal).1 value))
  | pushBackMove i value =>
      exact onObject_agree h hlegal (append_noThrow hE (fun _ _ hq => ⟨hq.1, hq.2.2⟩)
        (pushBackMove_spec (h.rep hlegal).1 value))
  | emplaceBack i value =>
      exact onObject_agree h hlegal (append_noThrow hE (fun _ _ hq => ⟨hq.1, hq.2.2⟩)
        (emplaceBack_spec (h.rep hlegal).1 value))
  | popBack i =>
      obtain ⟨hr, hl⟩ := h.rep hlegal
      simp only [exec, listExec, onObject]
      -- `pop_back` is refused with `out_of_range`, so `place` does not apply
      rcases wp_cases (popBack_spec hr) with ⟨_, ho, hne, hr'⟩ | ⟨e, ho, he, hnil, hv⟩
      · rw [if_neg (by rw [List.isEmpty_iff]; exact hne)]
        exact ⟨ho, h.update ⟨hlegal, hr'⟩⟩
      · rw [if_pos (by rw [hnil]; rfl), ho, he, hv, Function.update_eq_self]
        exact ⟨rfl, h⟩
  | clear i => exact onObject_agree h hlegal (sets_clear (h.rep hlegal).1)
  | resize i n =>
      obtain ⟨hi, hn⟩ := hlegal
      exact onObject_agree h hi (sets_resize hE (h.rep hi).1 hn)
  | destruct i =>
      have hr := (h.rep hlegal).1
      have hlist : listExec c E.dflt l (.destruct i) = (.ok (), Function.update l i none) :=
        place_ok (r := []) (Nat.zero_le (c i))
      rw [hlist]
      simp only [exec, onObject, destruct, Function.update_self, Function.update_idem]
      rcases wp_cases (clear_spec hr) with ⟨_, ho, hr'⟩ | ⟨e, _, hf⟩
      · exact ⟨ho, h.update ⟨rfl, hr'.holds⟩⟩
      · exact hf.elim

/-! ## Whole runs -/

/-- The vectors simulate the bounded lists, labels included. -/
theorem refines (c : ι → Nat) (hE : E.NoThrow) :
    Simulation (vectors c E) (boundedLists c E.dflt) (Refines c) where
  init w hw := by
    refine ⟨fun _ => none, fun _ => rfl, ?_⟩
    intro i
    exact hw i
  step w l a w' h hstep := by
    obtain ⟨op, out⟩ := a
    obtain ⟨hlegal, hexec⟩ := hstep
    obtain ⟨hout, hrel⟩ := exec_agree hE h op hlegal
    -- a call is legal for the lists if it is for the vectors
    simp only [h.alive_eq] at hlegal
    rw [hexec] at hout hrel
    exact ⟨(listExec c E.dflt l op).2, ⟨hlegal, Prod.ext hout.symm rfl⟩, hrel⟩

/-- The lists never run into undefined behaviour and never diverge. -/
theorem listExec_outcome (c : ι → Nat) (dflt : T) (l : ι → Option (List T)) (op : Op ι T) :
    (listExec c dflt l op).1 ≠ .undefined ∧ (listExec c dflt l op).1 ≠ .diverged := by
  cases op <;> simp only [listExec] <;> split <;> exact ⟨nofun, nofun⟩

/-- They refuse with `length_error` exactly the results that do not fit. -/
theorem listExec_lengthError_iff (h : Refines c w l) (op : Op ι T)
    (hlegal : Legal c (fun i => (w i).alive) op) :
    (listExec c E.dflt l op).1 = .threw .lengthError
      ↔ c op.target < (result E.dflt l op).length := by
  cases op with
  | popBack i =>
      -- a shorter list always fits
      have hfit := (h.rep hlegal).1.fits
      have hlen : (result E.dflt l (.popBack i)).length ≤ c i := by
        show (contents l i).dropLast.length ≤ c i
        rw [List.length_dropLast]
        omega
      constructor
      · simp only [listExec]
        split <;> exact nofun
      · intro hlt
        exact absurd hlt (Nat.not_lt.mpr hlen)
  | _ => exact place_lengthError_iff

/-- A refused operation has changed nothing. -/
theorem listExec_threw {e : Exn} (op : Op ι T)
    (h : (listExec c E.dflt l op).1 = .threw e) : (listExec c E.dflt l op).2 = l := by
  cases op with
  | popBack i =>
      simp only [listExec] at h ⊢
      split at h
      · rw [if_pos ‹_›]
      · exact nomatch h
  | _ => exact place_threw h

/-- Every legal call can be the next one. -/
theorem run_call {tr : List (Op ι T × Outcome Exn Unit)} (h : Run (vectors c E) tr w)
    (op : Op ι T) (hlegal : Legal c (fun i => (w i).alive) op) :
    Run (vectors c E) (tr ++ [(op, (exec c E w op).1)]) (exec c E w op).2 :=
  .snoc h ⟨hlegal, rfl⟩

/-- **`FixedCapacityVector` refines the bounded lists over whole runs.**  Every run of
    the vectors is, call by call and outcome by outcome, a run of the lists.  Where it
    ends, each vector is within its capacity, has constructed exactly the places below
    `m_size`, and iterates over its list both ways; storage without a vector holds no
    element; no call has met undefined behaviour, so every placement new has found an
    empty place and every destroy a full one; and the next call throws `length_error`
    exactly if its result would not fit, leaving all vectors as they are. -/
theorem runs_refine_boundedLists (hE : E.NoThrow) {tr : List (Op ι T × Outcome Exn Unit)}
    (h : Run (vectors c E) tr w) :
    ∃ l, Run (boundedLists c E.dflt) tr l
      ∧ (∀ i xs, l i = some xs → (w i).alive = true ∧ (w i).vec.mSize ≤ c i
          ∧ (∀ k, ((w i).vec.mBuffer k).isSome ↔ k < (w i).vec.mSize)
          ∧ (w i).vec.iterate = xs.map some
          ∧ (w i).vec.iterateReverse = xs.reverse.map some)
      ∧ (∀ i, l i = none → (w i).alive = false ∧ ∀ k, (w i).vec.mBuffer k = none)
      ∧ (∀ a ∈ tr, a.2 ≠ .undefined ∧ a.2 ≠ .diverged)
      ∧ (∀ op, Legal c (fun i => (w i).alive) op →
          ((exec c E w op).1 = .threw .lengthError
            ↔ c op.target < (result E.dflt l op).length)
          ∧ (∀ e, (exec c E w op).1 = .threw e → Refines c (exec c E w op).2 l)) := by
  obtain ⟨l, hl, hrel⟩ := (refines c hE).run h
  refine ⟨l, hl, ?_, ?_, ?_, ?_⟩
  · intro i xs hi
    have hs := hrel i
    rw [hi] at hs
    obtain ⟨halive, hr⟩ := hs
    refine ⟨halive, hr.size ▸ hr.fits, ?_, hr.iterate_eq, hr.iterateReverse_eq⟩
    rw [hr.size]
    exact hr.holds.isSome_iff
  · intro i hi
    have hs := hrel i
    rw [hi] at hs
    exact hs
  · intro a ha
    obtain ⟨l₁, l₂, -, -, hstep⟩ := hl.step_of_mem ha
    have := listExec_outcome c E.dflt l₁ a.1
    rw [hstep] at this
    exact this
  · intro op hlegal
    obtain ⟨hout, hnext⟩ := exec_agree hE hrel op hlegal
    constructor
    · rw [hout]
      exact listExec_lengthError_iff hrel op hlegal
    · intro e he
      rw [hout] at he
      rw [listExec_threw op he] at hnext
      exact hnext

/-- An element type that does not throw. -/
def plainElement : Element Nat := ⟨0, fun _ => 0, fun _ => 0, fun _ _ => false⟩

/-- Two vectors, of capacities `2` and `1`. -/
def twoCapacities (i : Bool) : Nat := if i then 2 else 1

/-- The large vector cannot be copied into the small one until it has lost an element. -/
def copyAndMove : List (Op Bool Nat × Outcome Exn Unit) :=
  [(.initConstruct true [7, 8], .ok ()), (.copyConstruct false true, .threw .lengthError),
    (.popBack true, .ok ()), (.moveConstruct false true, .ok ())]

theorem copyAndMove_refines : ∃ w l, Run (vectors twoCapacities plainElement) copyAndMove w
    ∧ Run (boundedLists twoCapacities 0) copyAndMove l
    ∧ ∀ i xs, l i = some xs → (w i).vec.iterate = xs.map some := by
  have hstart : Run (vectors twoCapacities plainElement) []
      fun _ => ⟨false, ⟨0, fun _ => none⟩⟩ :=
    .start fun _ => ⟨rfl, holds_empty⟩
  have hinit := run_call hstart (.initConstruct true [7, 8]) rfl
  have hcopy := run_call hinit (.copyConstruct false true) (And.intro rfl rfl)
  have hpop := run_call hcopy (.popBack true) rfl
  have hmove := run_call hpop (.moveConstruct false true) (And.intro rfl rfl)
  obtain ⟨l, hl, hstands, -⟩ := runs_refine_boundedLists (fun _ _ => rfl) hmove
  exact ⟨_, l, hmove, hl, fun i xs hi => (hstands i xs hi).2.2.2.1⟩

/-- **What `at`, `front()` and `back()` read** where a run ends: the elements of the list.
    Where it has none they throw `out_of_range`; they change nothing. -/
theorem runs_read_lists (hE : E.NoThrow) {tr : List (Op ι T × Outcome Exn Unit)}
    (h : Run (vectors c E) tr w) : ∃ l, Run (boundedLists c E.dflt) tr l
      ∧ ∀ i xs, l i = some xs →
        (∀ k, wp (atIndex k) (fun x v => xs[k]? = some x ∧ v = (w i).vec)
          (fun e v => e = .outOfRange ∧ xs.length ≤ k ∧ v = (w i).vec) (w i).vec)
        ∧ wp front (fun x v => xs.head? = some x ∧ v = (w i).vec)
          (fun e v => e = .outOfRange ∧ xs = [] ∧ v = (w i).vec) (w i).vec
        ∧ wp back (fun x v => xs.getLast? = some x ∧ v = (w i).vec)
          (fun e v => e = .outOfRange ∧ xs = [] ∧ v = (w i).vec) (w i).vec := by
  obtain ⟨l, hl, hrel⟩ := (refines c hE).run h
  refine ⟨l, hl, ?_⟩
  intro i xs hi
  have hs := hrel i
  rw [hi] at hs
  obtain ⟨-, hr⟩ := hs
  exact ⟨atIndex_spec hr, front_spec hr, back_spec hr⟩

end FixedCapacityVector
