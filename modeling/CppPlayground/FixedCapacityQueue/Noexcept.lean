import CppPlayground.FixedCapacityQueue.Conservation

/-! # `FixedCapacityQueue`: the `noexcept` clauses

    Each member states its clause through one trait, and the constructor that it selects has
    another, two calls further down.  An exception that meets a clause that holds ends the
    program, so the runs are those in which that has not happened. -/

namespace FixedCapacityQueue

open Program Storage Transition

variable {A T : Type}

/-! ## The clauses -/

/-- The traits of `T`; `optionalForwards` says whether the constructor of `std::optional<T>`
    from a `T &&` is declared `noexcept` when that of `T` is. -/
structure Traits where
  isNothrowCopyConstructible : Bool
  isNothrowMoveConstructible : Bool
  /-- from the arguments of `emplace` -/
  isNothrowConstructible : Bool
  optionalForwards : Bool

/-- `std::is_nothrow_constructible_v<std::optional<T>, T &&>` -/
def Traits.isNothrowOptional (t : Traits) : Bool :=
  t.optionalForwards && t.isNothrowMoveConstructible

/-- The clause of the member, `push(T &&)` with the one of `push(const T &)`. -/
def noexceptClause (t : Traits) : Op A T → Bool
  | .pushCopy _ | .pushMove _ => t.isNothrowCopyConstructible
  | .emplace _ => t.isNothrowConstructible
  | .pop => t.isNothrowOptional
  | .clear => true

/-- The trait of the constructor that the member selects, as `construct_element` asks for it;
    `clear` constructs nothing. -/
def selectedTrait (t : Traits) : Op A T → Bool
  | .pushCopy _ => t.isNothrowCopyConstructible
  | .pushMove _ | .pop => t.isNothrowMoveConstructible
  | .emplace _ => t.isNothrowConstructible
  | .clear => true

/-- The constructor of the call throws only if its trait is false. -/
def Traits.Honest (t : Traits) (fails : Bool) (op : Op A T) : Prop :=
  selectedTrait t op = true → fails = false

/-- An exception leaves a member whose clause holds: `std::terminate`. -/
def Terminates (t : Traits) (a : ThrowingEvent A T) : Prop :=
  noexceptClause t a.2.1 = true ∧ ∃ e, a.2.2 = .threw e

/-- All runs of a program that goes on. -/
def unterminatedQueues (t : Traits) (E : Element T) (k : Construct A T)
    (allocates : Nat → Bool) (capacity : Nat) : System (Queue T) (ThrowingEvent A T) :=
  (throwingQueues E k allocates capacity).restrict
    fun _ a => t.Honest a.1 a.2.1 ∧ ¬ Terminates t a

/-- Whichever call comes next, an exception of its constructor reaches the caller. -/
def NoexceptSound (t : Traits) (E : Element T) (k : Construct A T) (q : Queue T) : Prop :=
  ∀ fails op, t.Honest fails op → ¬ Terminates t (fails, op, (exec E k fails op q).1)

/-! ## One call -/

variable {E : Element T} {k : Construct A T} {t : Traits} {capacity : Nat} {q : Queue T}
  {xs : List T} {fails : Bool}

theorem pushMove_threw_iff (h : Rep capacity q xs) (value : T) :
    (∃ e, (exec E k fails (.pushMove value) q).1 = .threw e)
      ↔ fails = true ∧ xs.length < capacity := by
  cases fails with
  | false =>
      obtain ⟨r, q', hrun, -⟩ := wp_returns (exec_spec (E := E) (k := k) h false (.pushMove value))
        (fun _ _ he => absurd he.2.1 Bool.false_ne_true)
      rw [hrun]
      constructor
      · rintro ⟨e, he⟩
        cases he
      · exact fun hfails => absurd hfails.1 Bool.false_ne_true
  | true =>
      have hpush : wp (exec E k true (.pushMove value : Op A T))
          (fun _ _ => xs.length = capacity) (fun _ _ => xs.length < capacity) q := by
        rw [exec, pushMove, wp_bind]
        exact wp_constructElement h (.move E) (fun hfull => hfull) (fun _ hroom => hroom)
          (fun hfails => absurd hfails.symm Bool.false_ne_true)
      rcases wp_cases hpush with ⟨r, hok, hfull⟩ | ⟨e, hthrew, hroom⟩
      · rw [hok]
        constructor
        · rintro ⟨e, he⟩
          cases he
        · exact fun hroom => absurd hfull (Nat.ne_of_lt hroom.2)
      · exact ⟨fun _ => ⟨rfl, hroom⟩, fun _ => ⟨e, hthrew⟩⟩

/-- Every clause but one is at most the trait of the constructor. -/
theorem selectedTrait_of_clause {op : Op A T} (hop : ∀ value, op ≠ .pushMove value)
    (hclause : noexceptClause t op = true) : selectedTrait t op = true := by
  cases op with
  | pushMove value => exact absurd rfl (hop value)
  | pop => exact (Bool.and_eq_true_iff.mp hclause).2
  | pushCopy _ | emplace _ | clear => exact hclause

/-- **A call ends the program** exactly if it is a `push(T &&)` with room, of a type that
    does not throw when copied, and the move throws. -/
theorem terminates_iff (h : Rep capacity q xs) {op : Op A T} (hthrows : t.Honest fails op) :
    Terminates t (fails, op, (exec E k fails op q).1)
      ↔ (∃ value, op = .pushMove value) ∧ t.isNothrowCopyConstructible = true
        ∧ fails = true ∧ xs.length < capacity := by
  constructor
  · rintro ⟨hclause, e, hthrew⟩
    have hfails : fails = true := (wp_of_threw (exec_spec h fails op) hthrew).2.1
    by_cases hop : ∃ value, op = .pushMove value
    · obtain ⟨value, rfl⟩ := hop
      exact ⟨⟨value, rfl⟩, hclause, (pushMove_threw_iff h value).mp ⟨e, hthrew⟩⟩
    · have hselected := selectedTrait_of_clause (fun value heq => hop ⟨value, heq⟩) hclause
      exact absurd ((hthrows hselected).symm.trans hfails) Bool.false_ne_true
  · rintro ⟨⟨value, rfl⟩, hcopy, hfails, hroom⟩
    exact ⟨hcopy, (pushMove_threw_iff h value).mpr ⟨hfails, hroom⟩⟩

theorem noexceptSound_of_traits (h : Rep capacity q xs)
    (htraits : t.isNothrowCopyConstructible = true → t.isNothrowMoveConstructible = true) :
    NoexceptSound t E k q := by
  intro fails op hthrows hterminates
  obtain ⟨⟨value, rfl⟩, hcopy, hfails, -⟩ := (terminates_iff h hthrows).mp hterminates
  exact absurd ((hthrows (htraits hcopy)).symm.trans hfails) Bool.false_ne_true

/-! ## Whole runs -/

section Runs

variable {allocates : Nat → Bool}

/-- **The `noexcept` clauses are sound** in every state that a program reaches, exactly for
    the types that do not throw when moved if they do not when copied.  Otherwise the calls
    that end the program are those of `push(T &&)` with room in which the move throws. -/
theorem noexcept_sound_iff (halloc : ∀ n, allocates n = true → n < 2 ^ 63)
    (hnew : allocates capacity = true) (hpos : 0 < capacity) :
    ((∀ tr q, Run (unterminatedQueues t E k allocates capacity) tr q → NoexceptSound t E k q)
      ↔ (t.isNothrowCopyConstructible = true → t.isNothrowMoveConstructible = true))
    ∧ ∀ tr q, Run (unterminatedQueues t E k allocates capacity) tr q →
      ∀ fails op, t.Honest fails op →
        (Terminates t (fails, op, (exec E k fails op q).1)
          ↔ (∃ value, op = .pushMove value) ∧ t.isNothrowCopyConstructible = true
            ∧ fails = true ∧ q.mSize < q.mCapacity) := by
  refine ⟨⟨fun hsound hcopy => ?_, fun htraits tr q h => ?_⟩, fun tr q h fails op hthrows => ?_⟩
  · -- the new queue has room for a move that throws
    have hnewQueue : construct (T := T) allocates capacity
        = .ok ⟨fun _ => none, capacity, 0, 0, false⟩ := by
      rw [construct, if_pos hnew, if_neg (Nat.ne_of_gt hpos)]
    have hrep := (construct_rep halloc hnewQueue).2
    by_contra hmove
    have hthrows : t.Honest true (.pushMove E.dflt : Op A T) := fun h => absurd h hmove
    exact hsound [] _ (.start hnewQueue) true (.pushMove E.dflt) hthrows
      ((terminates_iff hrep hthrows).mpr ⟨⟨_, rfl⟩, hcopy, rfl, hpos⟩)
  · obtain ⟨xs, hrep⟩ := run_rep halloc h.of_restrict
    exact noexceptSound_of_traits hrep htraits
  · obtain ⟨xs, hrep⟩ := run_rep halloc h.of_restrict
    rw [hrep.size, hrep.capacity_eq]
    exact terminates_iff hrep hthrows

/-- Every call that does not end the program can be the next one. -/
theorem run_unterminated {tr : List (ThrowingEvent A T)}
    (h : Run (unterminatedQueues t E k allocates capacity) tr q) (fails : Bool) (op : Op A T)
    (hthrows : t.Honest fails op)
    (hgoes : ¬ Terminates t (fails, op, (exec E k fails op q).1)) :
    Run (unterminatedQueues t E k allocates capacity)
      (tr ++ [(fails, op, (exec E k fails op q).1)]) (exec E k fails op q).2 :=
  .snoc h ⟨rfl, hthrows, hgoes⟩

end Runs

/-- Integers that a throwing move sets to `7`. -/
def sevenHalfMoved : Element Nat := ⟨0, fun _ => 0, fun _ => 7, fun _ _ => false⟩

/-- `T(const T &) noexcept` and `T(T &&)` without. -/
def copiesOnly : Traits := ⟨true, false, false, true⟩

/-- The exception of the move of a `pop` reaches the caller. -/
def throwingPop : List (ThrowingEvent Nat Nat) :=
  [(false, .pushCopy 1, .ok (.pushed true 1)), (true, .pop, .threw .element)]

/-- The next `push(T &&)` can end the program. -/
theorem throwingPop_then_terminates : ∃ q,
    Run (unterminatedQueues copiesOnly sevenHalfMoved .copy (· < 2 ^ 63) 2) throwingPop q
    ∧ Terminates copiesOnly
      (true, .pushMove 2, (exec sevenHalfMoved .copy true (.pushMove 2 : Op Nat Nat) q).1) := by
  have hstart : Run (unterminatedQueues copiesOnly sevenHalfMoved .copy (· < 2 ^ 63) 2)
      ([] : List (ThrowingEvent Nat Nat)) ⟨fun _ => none, 2, 0, 0, false⟩ := .start rfl
  have hpush := run_unterminated hstart false (.pushCopy 1) (fun _ => rfl) (by
    rintro ⟨-, e, he⟩
    cases he)
  have hpop := run_unterminated hpush true .pop (fun h => absurd h Bool.false_ne_true)
    (fun h => absurd h.1 Bool.false_ne_true)
  refine ⟨_, hpop, ?_⟩
  have hcalls := (noexcept_sound_iff (t := copiesOnly) (fun n hn => of_decide_eq_true hn)
    rfl Nat.two_pos).2 _ _ hpop
  exact (hcalls true (.pushMove 2) fun h => absurd h Bool.false_ne_true).mpr
    ⟨⟨2, rfl⟩, rfl, rfl, Nat.one_lt_two⟩

/-- A `push(T &&)` into a new queue, whose clause asks about copies. -/
theorem pushMove_terminates : ¬ ∀ (t : Traits) (tr : List (ThrowingEvent Nat Nat)) (q : Queue Nat),
    Run (unterminatedQueues t sevenHalfMoved .copy (· < 2 ^ 63) 2) tr q →
      NoexceptSound t sevenHalfMoved (.copy : Construct Nat Nat) q := by
  intro hall
  have hsound := hall copiesOnly [] ⟨fun _ => none, 2, 0, 0, false⟩ (.start rfl)
  have hthrows : copiesOnly.Honest true (.pushMove 1 : Op Nat Nat) :=
    fun h => absurd h Bool.false_ne_true
  exact hsound true (.pushMove 1) hthrows ⟨rfl, .element, rfl⟩

end FixedCapacityQueue
