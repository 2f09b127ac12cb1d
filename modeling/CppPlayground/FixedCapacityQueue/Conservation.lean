import Mathlib.Algebra.BigOperators.Group.Multiset.Basic
import Mathlib.Algebra.Order.Sub.Basic
import Mathlib.Data.Multiset.OrderedMonoid
import CppPlayground.FixedCapacityQueue.Refinement

/-! # `FixedCapacityQueue`: elements are conserved when constructors throw

    Runs in which the constructor of a call may throw.  To follow each element from its
    construction to its destruction, the run is repeated with elements that carry a number:
    nothing that the members do depends on it, so `accounts_follow` reads the numbers back
    out of a run of the queue as it is.  The account of a run says what was constructed and
    what each call has destroyed. -/

namespace FixedCapacityQueue

open Program Storage Transition

variable {A T : Type}

/-- Whether the constructor throws, the call and how it ended. -/
abbrev ThrowingEvent (A T : Type) : Type := Bool × Op A T × Outcome Exn (Answer A T)

/-- All runs, with an exception of the constructor in any call. -/
def throwingQueues (E : Element T) (k : Construct A T) (allocates : Nat → Bool)
    (capacity : Nat) : System (Queue T) (ThrowingEvent A T) where
  init q := construct allocates capacity = .ok q
  step q a q' := exec E k a.1 a.2.1 q = (a.2.2, q')

/-- Every call returns, or lets the exception of a constructor through and leaves the queue
    as it was: all of it, or all but the value in front that a `pop` failed to move. -/
def Withstands (E : Element T) (k : Construct A T) (q : Queue T) : Prop :=
  ∀ fails op, (∃ r, (exec E k fails op q).1 = .ok r)
    ∨ ((exec E k fails op q).1 = .threw .element ∧ Leaves E q (exec E k fails op q).2 op)

/-! ## Numbered elements -/

/-- A value and the number of the call that it was given to. -/
structure Numbered (α : Type) where
  number : Nat
  value : α
  deriving DecidableEq

def Numbered.map {α β : Type} (f : α → β) (x : Numbered α) : Numbered β :=
  ⟨x.number, f x.value⟩

/-- An element that is moved from stays the element that it is. -/
def numberedElement (E : Element T) : Element (Numbered T) :=
  ⟨⟨0, E.dflt⟩, Numbered.map E.moved, Numbered.map E.halfMoved, E.throws⟩

def Construct.numbered (k : Construct A T) : Construct (Numbered A) (Numbered T) :=
  ⟨Numbered.map k.build, Numbered.map k.left⟩

/-- The arguments of call `n` carry its number. -/
def Op.numbered (n : Nat) : Op A T → Op (Numbered A) (Numbered T)
  | .pushCopy v => .pushCopy ⟨n, v⟩
  | .pushMove v => .pushMove ⟨n, v⟩
  | .emplace args => .emplace ⟨n, args⟩
  | .pop => .pop
  | .clear => .clear

/-- The answer without the numbers. -/
def Answer.value : Answer (Numbered A) (Numbered T) → Answer A T
  | .pushed done left => .pushed done left.value
  | .emplaced done left => .emplaced done left.value
  | .popped x => .popped (x.map Numbered.value)
  | .cleared => .cleared

/-- The queue without the numbers. -/
def Queue.value (q : Queue (Numbered T)) : Queue T :=
  ⟨Slots.map Numbered.value q.mData, q.mCapacity, q.mHeadIndex, q.mSize, q.wrapped⟩

/-- The numbers of the elements that are constructed in some slot. -/
def Queue.live (q : Queue (Numbered T)) : Multiset Nat :=
  ((List.range q.mCapacity).filterMap q.mData).map Numbered.number

/-- The queue, the elements constructed so far and, call by call, how the call ended and the
    elements that it destroyed. -/
structure Account (A T : Type) where
  queue : Queue (Numbered T)
  constructed : Multiset Nat
  calls : List (Outcome Exn (Answer (Numbered A) (Numbered T)) × Multiset Nat)

/-- Enter a call that has led to `q`. -/
def Account.enter (a : Account A T) (out : Outcome Exn (Answer (Numbered A) (Numbered T)))
    (q : Queue (Numbered T)) : Account A T where
  queue := q
  constructed := a.constructed + (q.live - a.queue.live)
  calls := a.calls ++ [(out, a.queue.live - q.live)]

/-- The accounts of the runs. -/
def accounts (E : Element T) (k : Construct A T) (allocates : Nat → Bool) (capacity : Nat) :
    System (Account A T) (ThrowingEvent A T) where
  init a := construct allocates capacity = .ok a.queue ∧ a.constructed = 0 ∧ a.calls = []
  step a e a' := ∃ out q,
    exec (numberedElement E) k.numbered e.1 (e.2.1.numbered a.calls.length) a.queue = (out, q)
      ∧ e.2.2 = out.map Answer.value ∧ a' = a.enter out q

/-- What a call may destroy: a `pop` the element that it returns, `clear` what it finds. -/
def Rightly : Outcome Exn (Answer (Numbered A) (Numbered T)) → Multiset Nat → Prop
  | .ok (.popped (some x)), gone => gone = {x.number}
  | .ok .cleared, _ => True
  | _, gone => gone = 0

/-- The queue is destroyed: every element that was constructed, each once, has been
    destroyed once, by the calls that may or now. -/
structure Account.Conserved (a : Account A T) : Prop where
  once : a.constructed.Nodup
  rightly : ∀ c ∈ a.calls, Rightly c.1 c.2
  ended : ∃ q, destruct a.queue = (.ok (), q) ∧ (∀ p, q.mData p = none)
    ∧ a.constructed = (a.calls.map Prod.snd).sum + (a.queue.live - q.live)

/-! ## The members do not see the numbers -/

variable {E : Element T} {k : Construct A T} {fails : Bool}

theorem maps_onData {α β : Type} {g : α → β} {p : Prog (Slots (Numbered T)) Exn α}
    {p' : Prog (Slots T) Exn β} (hp : Maps (Slots.map Numbered.value) g p p') :
    Maps Queue.value g (onData p) (onData p') :=
  Maps.zoom (fun _ => rfl) (fun _ _ => rfl) hp

theorem maps_wrapped (wraps : Bool) :
    Maps (Queue.value : Queue (Numbered T) → Queue T) id
      (modify fun q => { q with wrapped := q.wrapped || wraps } : Prog _ Exn Unit)
      (modify fun q => { q with wrapped := q.wrapped || wraps }) :=
  maps_modify fun _ => rfl

theorem maps_sizeAdd (a b : Nat) :
    Maps (Queue.value : Queue (Numbered T) → Queue T) id (sizeAdd a b) (sizeAdd a b) := by
  rw [sizeAdd, sizeAdd]
  exact Maps.bind (maps_wrapped _) fun _ => maps_pure_id _ _

theorem maps_sizeSub (a b : Nat) :
    Maps (Queue.value : Queue (Numbered T) → Queue T) id (sizeSub a b) (sizeSub a b) := by
  rw [sizeSub, sizeSub]
  exact Maps.bind (maps_wrapped _) fun _ => maps_pure_id _ _

theorem maps_setSize (n : Nat) :
    Maps (Queue.value : Queue (Numbered T) → Queue T) id (setSize n) (setSize n) :=
  maps_modify fun _ => rfl

theorem maps_tailIndex :
    Maps (Queue.value : Queue (Numbered T) → Queue T) id tailIndex tailIndex := by
  refine Maps.bind (g := id) (maps_gets fun _ => rfl) fun head => ?_
  refine Maps.bind (g := id) (maps_gets fun _ => rfl) fun size => ?_
  refine Maps.bind (g := id) (maps_gets fun _ => rfl) fun capacity => ?_
  refine Maps.bind (maps_sizeAdd _ _) fun writeIndex => ?_
  exact Maps.ite (maps_sizeSub _ _) (maps_pure _ _ _)

theorem maps_advanceHeadIndex :
    Maps (Queue.value : Queue (Numbered T) → Queue T) id advanceHeadIndex advanceHeadIndex := by
  refine Maps.bind (g := id) (maps_gets fun _ => rfl) fun head => ?_
  refine Maps.bind (maps_sizeAdd _ _) fun index => ?_
  refine Maps.bind (g := id) (maps_gets fun _ => rfl) fun capacity => ?_
  refine Maps.bind (maps_modify fun _ => rfl) fun _ => ?_
  refine Maps.bind (g := id) (maps_gets fun _ => rfl) fun size => ?_
  exact Maps.bind (maps_sizeSub _ _) fun size' => maps_setSize _

theorem maps_constructElement {B C : Type} {k : Construct C (Numbered T)} {k' : Construct B T}
    {value : C → B} (hbuild : ∀ args, (k.build args).value = k'.build (value args))
    (hleft : ∀ args, value (k.left args) = k'.left (value args)) (fails : Bool) (args : C) :
    Maps Queue.value (Prod.map id value) (constructElement k fails args)
      (constructElement k' fails (value args)) := by
  refine Maps.bind (g := id) (maps_gets fun _ => rfl) fun full => ?_
  refine Maps.ite (maps_pure _ _ (false, args)) ?_
  refine Maps.bind maps_tailIndex fun tail => ?_
  refine Maps.bind (g := id) (maps_gets fun _ => rfl) fun capacity => ?_
  rw [← hbuild]
  refine Maps.bind (maps_onData (maps_constructAt _ _ _ _ _)) fun _ => ?_
  refine Maps.bind (g := id) (maps_gets fun _ => rfl) fun size => ?_
  refine Maps.bind (maps_sizeAdd _ _) fun size' => ?_
  refine Maps.bind (maps_setSize _) fun _ => ?_
  rw [← hleft]
  exact maps_pure _ _ (true, k.left args)

theorem maps_destructElement :
    Maps (Queue.value : Queue (Numbered T) → Queue T) id destructElement destructElement := by
  refine Maps.bind (g := id) (maps_gets fun _ => rfl) fun empty => ?_
  refine Maps.ite (maps_undefined _ _) ?_
  refine Maps.bind (g := id) (maps_gets fun _ => rfl) fun head => ?_
  exact Maps.bind (maps_onData (maps_destroyAt _ _)) fun _ => maps_advanceHeadIndex

theorem maps_clear :
    Maps (Queue.value : Queue (Numbered T) → Queue T) id clear clear := by
  refine Maps.bind (g := id) (maps_gets fun _ => rfl) fun size => ?_
  exact Maps.whileLoop (fun _ => rfl) maps_destructElement _

theorem maps_pop (E : Element T) (fails : Bool) :
    Maps Queue.value (Option.map Numbered.value) (pop (numberedElement E) fails)
      (pop E fails) := by
  refine Maps.bind (g := id) (maps_gets fun _ => rfl) fun empty => ?_
  refine Maps.ite (maps_pure _ _ none) ?_
  refine Maps.bind (g := id) (maps_gets fun _ => rfl) fun head => ?_
  refine Maps.bind (maps_onData (maps_load _ _)) fun value => Maps.ite ?_ ?_
  · refine Maps.bind (maps_onData (maps_assignAt _ _ _)) fun _ => ?_
    exact maps_throwing _ _ _
  · refine Maps.bind (maps_onData (maps_assignAt _ _ _)) fun _ => ?_
    refine Maps.bind maps_destructElement fun _ => ?_
    exact maps_pure _ _ (some value)

/-- **The numbers change nothing**: a call on numbered elements is the call without the
    numbers, when they are taken off again. -/
theorem maps_exec (E : Element T) (k : Construct A T) (fails : Bool) (op : Op A T) (n : Nat) :
    Maps Queue.value Answer.value
      (exec (numberedElement E) k.numbered fails (op.numbered n)) (exec E k fails op) := by
  cases op with
  | pushCopy v =>
      have hpush : Maps Queue.value (Prod.map id Numbered.value)
          (pushCopy fails (⟨n, v⟩ : Numbered T)) (pushCopy fails v) :=
        maps_constructElement (fun _ => rfl) (fun _ => rfl) fails _
      exact Maps.bind hpush fun r => maps_pure _ _ (Answer.pushed r.1 r.2)
  | pushMove v =>
      have hpush : Maps Queue.value (Prod.map id Numbered.value)
          (pushMove (numberedElement E) fails (⟨n, v⟩ : Numbered T)) (pushMove E fails v) :=
        maps_constructElement (fun _ => rfl) (fun _ => rfl) fails _
      exact Maps.bind hpush fun r => maps_pure _ _ (Answer.pushed r.1 r.2)
  | emplace args =>
      have hemplace : Maps Queue.value (Prod.map id Numbered.value)
          (emplace k.numbered fails (⟨n, args⟩ : Numbered A)) (emplace k fails args) :=
        maps_constructElement (fun _ => rfl) (fun _ => rfl) fails _
      exact Maps.bind hemplace fun r => maps_pure _ _ (Answer.emplaced r.1 r.2)
  | pop => exact Maps.bind (maps_pop E fails) fun r => maps_pure _ _ (Answer.popped r)
  | clear => exact Maps.bind maps_clear fun _ => maps_pure _ _ Answer.cleared

/-! ## Accounts -/

variable {capacity : Nat} {q : Queue T} {xs ys : List (Numbered T)} {a : Account A T}
  {out : Outcome Exn (Answer (Numbered A) (Numbered T))} {q' : Queue (Numbered T)}

theorem Rep.live {q : Queue (Numbered T)} (h : Rep capacity q xs) :
    q.live = (xs.map Numbered.number : List Nat) := by
  rw [Queue.live, h.capacity_eq]
  exact Multiset.coe_eq_coe.mpr (h.holds.stored_perm.map _)

/-- What the account of a queue that stands for `xs` says. -/
structure Account.Inv (capacity : Nat) (a : Account A T) (xs : List (Numbered T)) : Prop where
  rep : Rep capacity a.queue xs
  once : a.constructed.Nodup
  fresh : ∀ n ∈ a.constructed, n < a.calls.length
  rightly : ∀ c ∈ a.calls, Rightly c.1 c.2
  balance : a.constructed = (a.calls.map Prod.snd).sum + (xs.map Numbered.number : List Nat)

/-- One more call. -/
theorem Account.Inv.rightly_enter (h : a.Inv capacity xs)
    (hright : Rightly out (a.queue.live - q'.live)) :
    ∀ c ∈ (a.enter out q').calls, Rightly c.1 c.2 := by
  intro c hc
  rcases List.mem_append.mp hc with hmem | hlast
  · exact h.rightly c hmem
  · rw [List.mem_singleton.mp hlast]
    exact hright

theorem Account.sum_enter (a : Account A T)
    (out : Outcome Exn (Answer (Numbered A) (Numbered T))) (q' : Queue (Numbered T)) :
    ((a.enter out q').calls.map Prod.snd).sum
      = (a.calls.map Prod.snd).sum + (a.queue.live - q'.live) := by
  rw [Account.enter, List.map_append, List.sum_append, List.map_singleton, List.sum_singleton]

/-- A call that has destroyed `gone`, and constructed nothing. -/
theorem Account.Inv.shrinks (h : a.Inv capacity xs) (hrep : Rep capacity q' ys)
    (gone : Multiset Nat)
    (hgone : (xs.map Numbered.number : List Nat) = gone + (ys.map Numbered.number : List Nat))
    (hright : Rightly out gone) : (a.enter out q').Inv capacity ys := by
  have hlive : a.queue.live = gone + q'.live := by rw [h.rep.live, hrep.live, hgone]
  have hbuilt : (a.enter out q').constructed = a.constructed := by
    rw [Account.enter, hlive, tsub_eq_zero_of_le (Multiset.le_add_left _ _), add_zero]
  have hdestroyed : a.queue.live - q'.live = gone := by
    rw [hlive, Multiset.add_sub_cancel_right]
  refine ⟨hrep, hbuilt ▸ h.once, ?_, h.rightly_enter (by rwa [hdestroyed]), ?_⟩
  · intro n hn
    rw [hbuilt] at hn
    exact Nat.lt_of_lt_of_le (h.fresh n hn) (by simp [Account.enter])
  · rw [hbuilt, Account.sum_enter, hdestroyed, h.balance, hgone, add_assoc]

/-- A call that has constructed the element with its own number. -/
theorem Account.Inv.grows (h : a.Inv capacity xs) (v : T)
    (hrep : Rep capacity q' (xs ++ [⟨a.calls.length, v⟩])) (hright : Rightly out 0) :
    (a.enter out q').Inv capacity (xs ++ [⟨a.calls.length, v⟩]) := by
  have hnumbers : (List.map Numbered.number (xs ++ [⟨a.calls.length, v⟩]) : Multiset Nat)
      = (xs.map Numbered.number : List Nat) + {a.calls.length} := by
    rw [List.map_append, ← Multiset.coe_add]
    rfl
  have hlive : q'.live = a.queue.live + {a.calls.length} := by
    rw [h.rep.live, hrep.live, hnumbers]
  have hbuilt : (a.enter out q').constructed = a.constructed + {a.calls.length} := by
    rw [Account.enter, hlive, add_tsub_cancel_left]
  have hdestroyed : a.queue.live - q'.live = 0 := by
    rw [hlive, tsub_eq_zero_of_le (Multiset.le_add_right _ _)]
  have hlength : (a.enter out q').calls.length = a.calls.length + 1 := by simp [Account.enter]
  refine ⟨hrep, ?_, ?_, h.rightly_enter (by rwa [hdestroyed]), ?_⟩
  · -- the number of this call has not been used before
    rw [hbuilt, Multiset.nodup_add]
    refine ⟨h.once, Multiset.nodup_singleton _, ?_⟩
    rw [Multiset.disjoint_singleton]
    exact fun hmem => Nat.lt_irrefl _ (h.fresh _ hmem)
  · intro n hn
    rw [hbuilt, Multiset.mem_add, Multiset.mem_singleton] at hn
    rw [hlength]
    rcases hn with hmem | rfl
    · exact Nat.lt_succ_of_lt (h.fresh n hmem)
    · exact Nat.lt_succ_self _
  · rw [hbuilt, Account.sum_enter, hdestroyed, add_zero, h.balance, hnumbers, add_assoc]

theorem Account.Inv.offered (h : a.Inv capacity xs) (v : T)
    (hrep : Rep capacity q' (offer capacity xs ⟨a.calls.length, v⟩)) (hright : Rightly out 0) :
    ∃ ys, (a.enter out q').Inv capacity ys := by
  by_cases hroom : xs.length < capacity
  · rw [offer, if_pos hroom] at hrep
    exact ⟨_, h.grows v hrep hright⟩
  · rw [offer, if_neg hroom] at hrep
    exact ⟨_, h.shrinks hrep 0 (zero_add _).symm hright⟩

/-- What a throwing call leaves still stands for as many elements. -/
theorem Rep.leaves {B U : Type} {E : Element U} {q q' : Queue U} {op : Op B U} {xs : List U}
    (h : Rep capacity q xs) (hleaves : Leaves E q q' op) :
    Rep capacity q' xs
      ∨ ∃ x rest, xs = x :: rest ∧ Rep capacity q' (E.halfMoved x :: rest) := by
  cases op with
  | pop =>
      obtain ⟨x, hx, rfl⟩ := hleaves
      cases xs with
      | nil =>
          have hsome : (q.mData q.mHeadIndex).isSome := by rw [hx]; rfl
          obtain ⟨i, hi, -⟩ := (h.holds.isSome_iff _).mp hsome
          exact absurd hi (Nat.not_lt_zero i)
      | cons y rest =>
          obtain rfl : y = x := Option.some.inj (h.front.symm.trans hx)
          exact Or.inr ⟨y, rest, rfl, h.setFront _⟩
  | pushCopy _ | pushMove _ | emplace _ | clear =>
      obtain rfl : q' = q := hleaves
      exact Or.inl h

/-- **One call keeps the account**, whether or not a constructor throws in it. -/
theorem Account.Inv.step (h : a.Inv capacity xs) (E : Element T) (k : Construct A T)
    (fails : Bool) (op : Op A T) (hexec : exec (numberedElement E) k.numbered fails
      (op.numbered a.calls.length) a.queue = (out, q')) :
    ∃ ys, (a.enter out q').Inv capacity ys := by
  have hout := (congrArg Prod.fst hexec).symm
  have hnext := (congrArg Prod.snd hexec).symm
  subst hout hnext
  rcases wp_cases (exec_spec (E := numberedElement E) (k := k.numbered) h.rep fails
    (op.numbered a.calls.length)) with ⟨r, hok, hr, hrep⟩ | ⟨e, hthrew, -, -, hleaves⟩
  · rw [hok, hr]
    cases op with
    | pushCopy v => exact h.offered v hrep rfl
    | pushMove v =>
        refine h.offered v hrep ?_
        by_cases hroom : xs.length < capacity <;> simp [Op.numbered, fifoExec, hroom, Rightly]
    | emplace args =>
        refine h.offered (k.build args) hrep ?_
        by_cases hroom : xs.length < capacity <;> simp [Op.numbered, fifoExec, hroom, Rightly]
    | pop =>
        cases xs with
        | nil => exact ⟨_, h.shrinks hrep 0 (zero_add _).symm rfl⟩
        | cons x rest => exact ⟨_, h.shrinks hrep {x.number} rfl rfl⟩
    | clear => exact ⟨_, h.shrinks hrep _ (add_zero _).symm trivial⟩
  · rw [hthrew]
    rcases h.rep.leaves hleaves with hrep | ⟨x, rest, rfl, hrep⟩
    · exact ⟨_, h.shrinks hrep 0 (zero_add _).symm rfl⟩
    · exact ⟨_, h.shrinks hrep 0 (zero_add _).symm rfl⟩

/-- The destructor destroys what the account still counts as live. -/
theorem Account.Inv.conserved (h : a.Inv capacity xs) : a.Conserved where
  once := h.once
  rightly := h.rightly
  ended := by
    obtain ⟨⟨⟩, q, hrun, hnone⟩ := wp_returns (destruct_spec (F := fun _ _ => False) h.rep)
      (fun _ _ he => he)
    have hlive : q.live = 0 := by
      rw [Queue.live, List.filterMap_eq_nil_iff.mpr fun p _ => hnone p]
      rfl
    refine ⟨q, hrun, hnone, ?_⟩
    rw [h.balance, h.rep.live, hlive, tsub_zero]

/-! ## Whole runs -/

section Runs

variable {allocates : Nat → Bool} {tr : List (ThrowingEvent A T)}

theorem construct_value {q : Queue T} (h : construct allocates capacity = .ok q) :
    ∃ q' : Queue (Numbered T), construct allocates capacity = .ok q' ∧ q'.value = q := by
  by_cases ha : allocates capacity = true
  · by_cases h0 : capacity = 0
    · rw [construct, if_pos ha, if_pos h0] at h
      cases h
    · rw [construct, if_pos ha, if_neg h0, Outcome.ok.injEq] at h
      subst h
      exact ⟨⟨fun _ => none, capacity, 0, 0, false⟩, by rw [construct, if_pos ha, if_neg h0], rfl⟩
  · rw [construct, if_neg ha] at h
    cases h

/-- Every run of a queue has its account. -/
theorem accounts_follow (E : Element T) (k : Construct A T) :
    Simulation (throwingQueues E k allocates capacity) (accounts E k allocates capacity)
      (fun q a => a.queue.value = q) where
  init q hq := by
    obtain ⟨q', hq', hvalue⟩ := construct_value hq
    exact ⟨⟨q', 0, []⟩, ⟨hq', rfl, rfl⟩, hvalue⟩
  step q a e q' hvalue hstep := by
    obtain ⟨fails, op, out⟩ := e
    subst hvalue
    have hmaps := maps_exec E k fails op a.calls.length a.queue
    rw [show exec E k fails op a.queue.value = (out, q') from hstep, Prod.mk.injEq] at hmaps
    obtain ⟨rfl, rfl⟩ := hmaps
    exact ⟨_, ⟨_, _, rfl, rfl, rfl⟩, rfl⟩

theorem run_account (halloc : ∀ n, allocates n = true → n < 2 ^ 63)
    (h : Run (accounts E k allocates capacity) tr a) : ∃ xs, a.Inv capacity xs := by
  refine Run.invariant (I := fun _ a => ∃ xs, a.Inv capacity xs) ?_ ?_ h
  · rintro ⟨q, constructed, calls⟩ ⟨hq, rfl, rfl⟩
    exact ⟨[], (construct_rep halloc hq).2, Multiset.nodup_zero, by simp, by simp, rfl⟩
  · rintro tr a ⟨fails, op, out⟩ a' - ⟨xs, hinv⟩ ⟨out', q', hexec, -, rfl⟩
    exact hinv.step E k fails op hexec

theorem withstands_of_rep {xs : List T} (h : Rep capacity q xs) : Withstands E k q := by
  intro fails op
  rcases wp_cases (exec_spec (E := E) (k := k) h fails op) with
    ⟨r, hok, -, -⟩ | ⟨e, hthrew, rfl, -, hleaves⟩
  · exact Or.inl ⟨r, hok⟩
  · exact Or.inr ⟨hthrew, hleaves⟩

theorem run_rep (halloc : ∀ n, allocates n = true → n < 2 ^ 63)
    (h : Run (throwingQueues E k allocates capacity) tr q) : ∃ xs, Rep capacity q xs := by
  refine Run.invariant (I := fun _ q => ∃ xs, Rep capacity q xs) ?_ ?_ h
  · intro q hq
    exact ⟨[], (construct_rep halloc hq).2⟩
  · rintro tr q ⟨fails, op, out⟩ q' - ⟨xs, hrep⟩ hexec
    have hexec : exec E k fails op q = (out, q') := hexec
    have hwp := wp_cases (exec_spec (E := E) (k := k) hrep fails op)
    rw [hexec] at hwp
    rcases hwp with ⟨r, -, -, hrep'⟩ | ⟨e, -, -, -, hleaves⟩
    · exact ⟨_, hrep'⟩
    · rcases hrep.leaves hleaves with hrep' | ⟨x, rest, -, hrep'⟩ <;> exact ⟨_, hrep'⟩

/-- **`FixedCapacityQueue` conserves its elements**, in every run in which any constructor
    may throw: a throwing call leaves every element constructed where it is, and by the
    account of the run every element that was constructed is destroyed once, by the `pop`
    that returned it, by a `clear` or by the destructor. -/
theorem runs_conserve (halloc : ∀ n, allocates n = true → n < 2 ^ 63)
    (h : Run (throwingQueues E k allocates capacity) tr q) :
    Withstands E k q ∧ ∃ a, Run (accounts E k allocates capacity) tr a
      ∧ a.queue.value = q ∧ a.Conserved := by
  obtain ⟨xs, hrep⟩ := run_rep halloc h
  obtain ⟨a, haccount, hvalue⟩ := (accounts_follow E k).run h
  obtain ⟨ys, hinv⟩ := run_account halloc haccount
  exact ⟨withstands_of_rep hrep, a, haccount, hvalue, hinv.conserved⟩

/-- Every call can be the next one. -/
theorem run_throwing (h : Run (throwingQueues E k allocates capacity) tr q) (fails : Bool)
    (op : Op A T) : Run (throwingQueues E k allocates capacity)
      (tr ++ [(fails, op, (exec E k fails op q).1)]) (exec E k fails op q).2 :=
  .snoc h rfl

end Runs

/-- A queue of two integers, `0` is what a move leaves behind and `7` what a move leaves
    that throws. -/
def throwingSmallQueues : System (Queue Nat) (ThrowingEvent Nat Nat) :=
  throwingQueues ⟨0, fun _ => 0, fun _ => 7, fun _ _ => false⟩ .copy (· < 2 ^ 63) 2

/-- A copy and the move of a `pop` throw; one element is left for the destructor. -/
def failingCalls : List (ThrowingEvent Nat Nat) :=
  [(false, .pushCopy 1, .ok (.pushed true 1)), (true, .pushCopy 2, .threw .element),
    (false, .emplace 3, .ok (.emplaced true 3)), (true, .pop, .threw .element),
    (false, .pop, .ok (.popped (some 7)))]

theorem failingCalls_conserve : ∃ q, Run throwingSmallQueues failingCalls q ∧ q.mSize = 1
    ∧ ∃ a : Account Nat Nat, a.queue.value = q ∧ a.Conserved := by
  have hstart : Run throwingSmallQueues [] ⟨fun _ => none, 2, 0, 0, false⟩ := .start rfl
  have hrun := run_throwing (run_throwing (run_throwing (run_throwing (run_throwing hstart
    false (.pushCopy 1)) true (.pushCopy 2)) false (.emplace 3)) true .pop) false .pop
  obtain ⟨-, a, -, hvalue, hconserved⟩ :=
    runs_conserve (fun n hn => of_decide_eq_true hn) hrun
  exact ⟨_, hrun, rfl, a, hvalue, hconserved⟩

end FixedCapacityQueue
