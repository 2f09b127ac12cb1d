import Mathlib.Data.List.Basic
import CppPlayground.Lib.System

/-! # Bounded channels

    What a concurrent queue is for: values are sent, received in the order they were
    sent, and at most `capacity` of them are on the way.  A step of the channel is the
    moment an operation takes effect; everything else a queue does is `internal`.

    `run_conserves` is the law of the channel over whole runs: what was sent is what was
    received followed by what is on the way.  A queue that `channel` simulates has it. -/

namespace Channel

open Transition

variable {T : Type}

/-- What an observer of a queue sees. -/
inductive Event (T : Type) where
  | internal
  | pushed (value : T)
  | refused (value : T)
  | popped (value : T)
  | foundEmpty
  deriving DecidableEq, Repr

/-- The channel, by the values on the way, oldest first. -/
def channel (T : Type) (capacity : Nat) : System (List T) (Event T) where
  init xs := xs = []
  step xs a xs' :=
    match a with
    | .internal => xs' = xs
    | .pushed v => xs.length < capacity ∧ xs' = xs ++ [v]
    | .refused _ => xs.length = capacity ∧ xs' = xs
    | .popped v => xs = v :: xs'
    | .foundEmpty => xs = [] ∧ xs' = xs

/-- The value an event sends. -/
def Event.sends : Event T → Option T
  | .pushed v => some v
  | _ => none

/-- The value an event receives. -/
def Event.receives : Event T → Option T
  | .popped v => some v
  | _ => none

/-- The value an event turns down. -/
def Event.refuses : Event T → Option T
  | .refused v => some v
  | _ => none

/-- The value an event takes or turns down. -/
def Event.offers : Event T → Option T
  | .pushed v | .refused v => some v
  | _ => none

/-- The values sent, in order. -/
def sent (tr : List (Event T)) : List T := observed Event.sends tr

/-- The values received, in order. -/
def received (tr : List (Event T)) : List T := observed Event.receives tr

/-- The values turned down, in order. -/
def refused (tr : List (Event T)) : List T := observed Event.refuses tr

/-- The values offered, in order. -/
def offered (tr : List (Event T)) : List T := observed Event.offers tr

/-- What is offered is sent or turned down. -/
theorem offered_perm (tr : List (Event T)) : (offered tr).Perm (sent tr ++ refused tr) := by
  refine observed_perm ?_ tr
  intro a
  cases a with
  | refused v => exact Or.inr ⟨rfl, rfl⟩
  | _ => exact Or.inl ⟨rfl, rfl⟩

theorem mem_refused {tr : List (Event T)} {v : T} : v ∈ refused tr ↔ .refused v ∈ tr := by
  rw [refused, observed, List.mem_filterMap]
  constructor
  · rintro ⟨a, ha, hv⟩
    cases a with
    | refused w =>
        obtain rfl : w = v := Option.some.inj hv
        exact ha
    | _ => exact absurd hv.symm (Option.some_ne_none _)
  · intro h
    exact ⟨_, h, rfl⟩

/-- **The law of the channel.** -/
theorem run_conserves {capacity : Nat} {tr : List (Event T)} {xs : List T}
    (h : Run (channel T capacity) tr xs) :
    sent tr = received tr ++ xs ∧ xs.length ≤ capacity := by
  refine Run.invariant (I := fun tr xs => sent tr = received tr ++ xs ∧ xs.length ≤ capacity)
    ?_ ?_ h
  · rintro xs rfl
    exact ⟨rfl, Nat.zero_le _⟩
  · rintro as xs a xs' - ⟨hsent, hlen⟩ hstep
    rw [sent, received, observed_concat, observed_concat, ← sent, ← received, hsent]
    cases a with
    | internal =>
        obtain rfl : xs' = xs := hstep
        exact ⟨by simp [Event.sends, Event.receives], hlen⟩
    | pushed v =>
        obtain ⟨hroom, rfl⟩ := hstep
        refine ⟨by simp [Event.sends, Event.receives], ?_⟩
        rw [List.length_append, List.length_singleton]
        omega
    | refused v =>
        obtain ⟨-, rfl⟩ := hstep
        exact ⟨by simp [Event.sends, Event.receives], hlen⟩
    | popped v =>
        obtain rfl : xs = v :: xs' := hstep
        exact ⟨by simp [Event.sends, Event.receives], Nat.le_of_succ_le hlen⟩
    | foundEmpty =>
        obtain ⟨-, rfl⟩ := hstep
        exact ⟨by simp [Event.sends, Event.receives], hlen⟩

end Channel
