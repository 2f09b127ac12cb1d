import CppPlayground.Lib.Ownership
import CppPlayground.OwningPointer.Steps

/-! # `OwningPointer` owns uniquely and deletes exactly once

    A run keeps a `Ledger`: what the handles hold, what they have adopted, what has been
    passed to a deleter and what was released.  Each operation is an operation of the
    ledger (`does_sound`), move assignment one that frees followed by one that transfers,
    so the law of the ledger holds of every run. -/

namespace OwningPointer

open Program Transition Ownership

variable {H A D : Type} {E : DeleterType D A} {s s' : State H A D} {this other : H}
  {tr : List (Event H A D)} {op : Op H A D} {ptr : Option A}

/-- The pointers passed to deleters, in order. -/
def State.freed (s : State H A D) : List A := s.calls.filterMap Call.ptr

/-- The ledger of a run. -/
def ledger (E : DeleterType D A) (tr : List (Event H A D)) (s : State H A D) : Ledger H A :=
  ⟨s.held, adopted E tr, s.freed, released tr⟩

theorem adopted_concat (E : DeleterType D A) (tr : List (Event H A D)) (a : Event H A D) :
    adopted E (tr ++ [a]) = adopted E tr ++ ((adopts E a).map Prod.fst).toList := by
  rw [adopted, adoptions, observed_concat, List.map_append]
  cases adopts E a <;> rfl

theorem released_concat (tr : List (Event H A D)) (a : Event H A D) :
    released (tr ++ [a]) = released tr ++ (releases a).toList := observed_concat _ _ _

theorem freed_record (s : State H A D) (this : H) (deleter : D) (ptr : Option A) :
    (s.record this deleter ptr).freed = s.freed ++ ptr.toList := by
  rw [State.record]
  cases ptr with
  | none => rw [if_pos rfl, Option.toList_none, List.append_nil]
  | some p =>
      rw [if_neg (Option.some_ne_none p)]
      show (s.calls ++ [_]).filterMap Call.ptr = _
      rw [List.filterMap_append]
      rfl

/-- An operation that neither adopts nor releases only changes what is held and what is
    freed. -/
theorem sound_concat {a : Event H A D} (hadopts : adopts E a = none)
    (hreleases : releases a = none) {l : Ledger H A} (hsound : l.Sound)
    (hadopted : l.adopted = adopted E tr) (hreleased : l.released = released tr)
    (hheld : s.held = l.held) (hfreed : s.freed = l.freed) :
    (ledger E (tr ++ [a]) s).Sound := by
  have heq : ledger E (tr ++ [a]) s = l := by
    rw [ledger, adopted_concat, released_concat, hadopts, hreleases, hheld, hfreed,
      ← hadopted, ← hreleased]
    simp
  rw [heq]
  exact hsound

variable [DecidableEq H]

theorem freed_set (s : State H A D) (this : H) (h : Option (Handle D A)) :
    (s.set this h).freed = s.freed := rfl

theorem held_handedOver {k : Handle D A} (deleter : D) (hother : s.handle other = some k) :
    (s.handedOver E this other deleter k).held
      = Function.update (Function.update s.held this (s.held other)) other none := by
  rw [State.handedOver, held_set, held_set, held_of_handle hother]
  rfl

theorem held_cleared (s : State H A D) (this : H) (h : Handle D A) :
    (s.cleared E this h).held = Function.update s.held this none := by
  rw [State.cleared, held_set, record_held]
  rfl

theorem freed_cleared {h : Handle D A} (hthis : s.handle this = some h) :
    (s.cleared E this h).freed = s.freed ++ (s.held this).toList := by
  rw [State.cleared, freed_set, freed_record, held_of_handle hthis]

/-- A construction from a pointer adopts it, unless it is null. -/
theorem construct_sound (hsound : (ledger E tr s).Sound) (hnone : s.handle this = none)
    (ptr : Option A) (deleter : D) {op : Op H A D}
    (hop : adopts E (op, none) = ptr.map fun p => (p, deleter))
    (hreleases : releases (op, (none : Option A)) = none) :
    (ledger E (tr ++ [(op, none)]) (s.set this (some ⟨deleter, ptr⟩))).Sound := by
  have hheld := held_of_none hnone
  cases ptr with
  | none =>
      refine sound_concat hop hreleases hsound rfl rfl ?_ rfl
      rw [held_set, Option.bind_some, ← hheld, Function.update_eq_self]
      rfl
  | some p =>
      have hadopt := hsound.adopt hheld p
      rw [ledger, held_set, adopted_concat, released_concat, hop, hreleases]
      rw [Option.toList_none, List.append_nil]
      exact hadopt

/-- **Each operation is an operation of the ledger.** -/
theorem does_sound (hsound : (ledger E tr s).Sound) (hdoes : Does E s op ptr s') :
    (ledger E (tr ++ [(op, ptr)]) s').Sound := by
  cases hdoes with
  | construct this hnone => exact construct_sound hsound hnone none E.dflt rfl rfl
  | constructFrom this ptr hnone => exact construct_sound hsound hnone ptr E.dflt rfl rfl
  | constructWith this ptr deleter hnone => exact construct_sound hsound hnone ptr deleter rfl rfl
  | moveConstruct this other k hnone hother hne =>
      exact sound_concat rfl rfl (hsound.transfer hne (held_of_none hnone)) rfl rfl
        (held_handedOver _ hother) rfl
  | moveAssignSelf this => exact sound_concat rfl rfl hsound rfl rfl rfl rfl
  | moveAssign this other h k hne hthis hother =>
      -- the old object is freed, and then the new one taken over
      have hfree := (hsound.free this).transfer hne (Function.update_self _ _ _)
      refine sound_concat rfl rfl hfree rfl rfl ?_ ?_
      · rw [held_handedOver _ (by rwa [record_handle]), record_held]
        show _ = Function.update (Function.update (Function.update s.held this none) this
          (Function.update s.held this none other)) other none
        rw [Function.update_of_ne (Ne.symm hne), Function.update_idem]
      · show (s.record this k.mDeleter h.mPtr).freed = s.freed ++ (s.held this).toList
        rw [freed_record, held_of_handle hthis]
  | assignNull this h hthis =>
      exact sound_concat rfl rfl (hsound.free this) rfl rfl (held_cleared s this h)
        (freed_cleared hthis)
  | release this h hthis =>
      have hrelease := hsound.release this
      rw [ledger, held_set, adopted_concat, released_concat]
      rw [Ledger.release, show (ledger E tr s).held this = h.mPtr from held_of_handle hthis]
        at hrelease
      rwa [show adopts E (Op.release this, h.mPtr) = none from rfl, Option.map_none,
        Option.toList_none, List.append_nil]
  | destruct this h hthis =>
      refine sound_concat rfl rfl (hsound.free this) rfl rfl ?_ (freed_cleared (E := E) hthis)
      rw [held_set, held_cleared]
      exact Function.update_idem _ _ _

/-- At most one call of a deleter, with what the handle of the member holds. -/
theorem Does.calls_eq (hdoes : Does E s op ptr s') : s'.calls = s.calls
    ∨ ∃ this deleter, s'.calls = (s.record this deleter (s.held this)).calls := by
  cases hdoes with
  | moveAssign this other h k hne hthis hother =>
      exact Or.inr ⟨this, k.mDeleter, by rw [held_of_handle hthis]; rfl⟩
  | assignNull this h hthis =>
      exact Or.inr ⟨this, h.mDeleter, by rw [held_of_handle hthis]; rfl⟩
  | destruct this h hthis =>
      exact Or.inr ⟨this, h.mDeleter, by rw [held_of_handle hthis]; rfl⟩
  | _ => exact Or.inl rfl

/-! ## Whole runs -/

/-- A call with a pointer that no other handle holds. -/
def Call.Proper (c : Call H A D) : Prop := c.ptr ≠ none ∧ ∀ k, k ≠ c.this → c.held k ≠ c.ptr

omit [DecidableEq H] in
theorem record_proper (hunique : ∀ h k p, s.held h = some p → s.held k = some p → h = k)
    (hproper : ∀ c ∈ s.calls, c.Proper) (this : H) (deleter : D) :
    ∀ c ∈ (s.record this deleter (s.held this)).calls, c.Proper := by
  rw [State.record]
  cases hheld : s.held this with
  | none => rwa [if_pos rfl]
  | some p =>
      rw [if_neg (Option.some_ne_none p)]
      intro c hc
      rcases List.mem_append.mp hc with hold | hnew
      · exact hproper c hold
      · obtain rfl := List.mem_singleton.mp hnew
        exact ⟨Option.some_ne_none p, fun k hk hkp => hk (hunique k this p hkp hheld)⟩

theorem run_sound (h : Run (handles E) tr s) : (ledger E tr s).Sound := by
  refine Run.invariant (I := fun tr s => (ledger E tr s).Sound) ?_ ?_ h
  · rintro s rfl
    exact sound_empty
  · rintro tr s ⟨op, ptr⟩ s' - hsound hstep
    exact does_sound hsound (exec_does hstep)

omit [DecidableEq H] in
/-- A run up to a step has adopted no pointer twice either. -/
theorem nodup_of_concat {a : Event H A D} (h : (adopted E (tr ++ [a])).Nodup) :
    (adopted E tr).Nodup := by
  rw [adopted_concat] at h
  exact (List.nodup_append.mp h).1

theorem run_proper (h : Run (handles E) tr s) (hdistinct : (adopted E tr).Nodup) :
    ∀ c ∈ s.calls, c.Proper := by
  refine Run.invariant (I := fun tr s => (adopted E tr).Nodup → ∀ c ∈ s.calls, c.Proper)
    ?_ ?_ h hdistinct
  · rintro s rfl _ c hc
    exact nomatch hc
  · rintro tr s ⟨op, ptr⟩ s' hrun hproper hstep hdistinct
    have hbefore := nodup_of_concat hdistinct
    rcases (exec_does hstep).calls_eq with heq | ⟨this, deleter, heq⟩
    · rw [heq]
      exact hproper hbefore
    · rw [heq]
      exact record_proper (fun _ _ _ => (run_sound hrun).unique hbefore) (hproper hbefore)
        this deleter

/-- Unique ownership: no two handles hold one pointer, no pointer is passed to deleters
    twice, no deleter is called with `nullptr` or with a pointer that another handle
    holds; and once there are no handles, the deleters have got what was adopted, except
    for what was released. -/
structure OwnsUniquely (E : DeleterType D A) (tr : List (Event H A D)) (s : State H A D) :
    Prop where
  unique : ∀ h k p, s.held h = some p → s.held k = some p → h = k
  once : s.freed.Nodup
  proper : ∀ c ∈ s.calls, c.Proper
  settled : (∀ h, s.handle h = none) → ∀ p ∈ adopted E tr, p ∈ s.freed ↔ p ∉ released tr

/-- Two objects: the first is deleted by a move assignment, the second is released. -/
def assignAndRelease : List (Event Bool Nat Unit) :=
  [(.constructFrom true (some 1), none), (.constructFrom false (some 2), none),
    (.moveAssign true false, none), (.moveAssign true true, none), (.release true, some 2),
    (.destruct true, none), (.destruct false, none)]

end OwningPointer
