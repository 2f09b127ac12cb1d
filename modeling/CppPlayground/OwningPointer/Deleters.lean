import CppPlayground.OwningPointer.Ownership

/-! # `OwningPointer`: which deleter deletes which object

    `pairs` is what a pointer with a deleter is for: an object and the deleter it was
    adopted with are one thing, moved and deleted together.  The handles refine it as long
    as no move assignment has to delete an object with another deleter than the one that
    comes with the source (`KeepsDeleters`): it takes over the deleter of the source first,
    and then deletes the old object with it. -/

namespace OwningPointer

open Program Transition

variable {H A D : Type} {E : DeleterType D A} {s s' : State H A D} {this other : H}
  {tr : List (Event H A D)} {op : Op H A D} {ptr : Option A}

/-- Objects with their deleters, owned by handles, and those deleted so far. -/
structure Pairs (H A D : Type) where
  owns : H → Option (A × D)
  deleted : List (A × D)

section Pairs

variable [DecidableEq H]

/-- Delete what a handle owns, by its own deleter. -/
def Pairs.clear (t : Pairs H A D) (this : H) : Pairs H A D :=
  ⟨Function.update t.owns this none, t.deleted ++ (t.owns this).toList⟩

/-- Hand over what a handle owns. -/
def Pairs.move (t : Pairs H A D) (this other : H) : Pairs H A D :=
  { t with owns := Function.update (Function.update t.owns this (t.owns other)) other none }

/-- Start to own. -/
def Pairs.put (t : Pairs H A D) (this : H) (pair : Option (A × D)) : Pairs H A D :=
  { t with owns := Function.update t.owns this pair }

/-- Replacing what is owned: the old object is deleted and the new one handed over. -/
theorem Pairs.clear_move {this other : H} (hne : this ≠ other) (t : Pairs H A D) :
    (t.clear this).move this other
      = { t.move this other with deleted := t.deleted ++ (t.owns this).toList } := by
  simp only [clear, move, Function.update_of_ne (Ne.symm hne), Function.update_idem]

/-- The operations, on objects with their deleters. -/
def Pairs.after (E : DeleterType D A) (t : Pairs H A D) : Op H A D → Pairs H A D
  | .construct this => t.put this none
  | .constructFrom this ptr => t.put this (ptr.map fun p => (p, E.dflt))
  | .constructWith this ptr deleter => t.put this (ptr.map fun p => (p, deleter))
  | .moveConstruct this other => t.move this other
  | .moveAssign this other => if this = other then t else (t.clear this).move this other
  | .assignNull this => t.clear this
  | .release this => t.put this none
  | .destruct this => t.clear this

/-- The runs of operations on objects with their deleters. -/
def pairs (E : DeleterType D A) : System (Pairs H A D) (Event H A D) where
  init t := t = ⟨fun _ => none, []⟩
  step t a t' := t' = t.after E a.1

/-- Every object that is owned or deleted is known with its deleter. -/
structure Pairs.Known (t : Pairs H A D) (known : List (A × D)) : Prop where
  owns : ∀ k pair, t.owns k = some pair → pair ∈ known
  deleted : ∀ pair ∈ t.deleted, pair ∈ known

variable {t : Pairs H A D} {known : List (A × D)}

omit [DecidableEq H] in
theorem Pairs.Known.append (h : t.Known known) (more : List (A × D)) :
    t.Known (known ++ more) :=
  ⟨fun k pair hk => List.mem_append_left _ (h.owns k pair hk),
    fun pair hp => List.mem_append_left _ (h.deleted pair hp)⟩

theorem Pairs.Known.put (h : t.Known known) {pair : Option (A × D)}
    (hpair : ∀ x, pair = some x → x ∈ known) (this : H) : (t.put this pair).Known known := by
  refine ⟨?_, h.deleted⟩
  intro k x hk
  change Function.update t.owns this pair k = some x at hk
  by_cases hthis : k = this
  · rw [hthis, Function.update_self] at hk
    exact hpair x hk
  · rw [Function.update_of_ne hthis] at hk
    exact h.owns k x hk

theorem Pairs.Known.putNone (h : t.Known known) (this : H) : (t.put this none).Known known :=
  h.put (fun _ hx => absurd hx.symm (Option.some_ne_none _)) this

theorem Pairs.Known.move (h : t.Known known) (this other : H) :
    (t.move this other).Known known :=
  (h.put (h.owns other) this).putNone other

theorem Pairs.Known.clear (h : t.Known known) (this : H) : (t.clear this).Known known := by
  refine ⟨(h.putNone this).owns, ?_⟩
  intro x hx
  rcases List.mem_append.mp hx with hold | hnew
  · exact h.deleted x hold
  · exact h.owns this x (Option.mem_toList.mp hnew)

/-- Every object that is owned or deleted has the deleter it was adopted with. -/
theorem run_known (h : Run (pairs E) tr t) : t.Known (adoptions E tr) := by
  refine Run.invariant (I := fun tr t => t.Known (adoptions E tr)) ?_ ?_ h
  · rintro t rfl
    exact ⟨nofun, nofun⟩
  · rintro tr t ⟨op, ptr⟩ t' - hknown rfl
    rw [adoptions, observed_concat, ← adoptions]
    have hmore := hknown.append (adopts E (op, ptr)).toList
    have hadopted : ∀ x, adopts E (op, ptr) = some x →
        x ∈ adoptions E tr ++ (adopts E (op, ptr)).toList :=
      fun x hx => List.mem_append_right _ (Option.mem_toList.mpr hx)
    cases op with
    | construct this => exact hmore.putNone this
    | constructFrom this ptr => exact hmore.put hadopted this
    | constructWith this ptr deleter => exact hmore.put hadopted this
    | moveConstruct this other => exact hmore.move this other
    | moveAssign this other =>
        rw [Pairs.after]
        split
        · exact hmore
        · exact (hmore.clear this).move this other
    | assignNull this => exact hmore.clear this
    | release this => exact hmore.putNone this
    | destruct this => exact hmore.clear this

end Pairs

/-! ## The handles as pairs -/

/-- `deleter()` -/
def State.deleter (s : State H A D) (h : H) : Option D := (s.handle h).map Handle.mDeleter

/-- A pointer that is not null, with the deleter next to it. -/
def Handle.pair (h : Handle D A) : Option (A × D) := h.mPtr.map fun p => (p, h.mDeleter)

/-- The pointer of a call with the deleter that was called. -/
def Call.pair (c : Call H A D) : Option (A × D) := c.ptr.map fun p => (p, c.deleter)

/-- What the handles own, and what was deleted by which deleter. -/
def State.pairs (s : State H A D) : Pairs H A D :=
  ⟨fun k => (s.handle k).bind Handle.pair, s.calls.filterMap Call.pair⟩

/-- The condition on a step: a move assignment from another handle that has an object to
    delete finds the same deleter in the source, which a call leaves as it is if there is
    an object to take over. -/
def KeepsDeleters (E : DeleterType D A) (s : State H A D) (a : Event H A D) : Prop :=
  match a.1 with
  | .moveAssign this other => this ≠ other → ∀ p, s.held this = some p →
      s.deleter other = s.deleter this
        ∧ (s.held other ≠ none → (s.deleter other).map (E.called · (some p)) = s.deleter other)
  | _ => True

variable [DecidableEq H]

theorem pairs_set (s : State H A D) (this : H) (h : Option (Handle D A)) :
    (s.set this h).pairs = s.pairs.put this (h.bind Handle.pair) := by
  have howns : (fun k => ((s.set this h).handle k).bind Handle.pair)
      = Function.update s.pairs.owns this (h.bind Handle.pair) := by
    funext k
    by_cases hk : k = this
    · rw [hk, set_handle_self, Function.update_self]
    · rw [set_handle_of_ne hk, Function.update_of_ne hk]
      rfl
  rw [State.pairs, howns]
  rfl

omit [DecidableEq H] in
theorem pairs_record (s : State H A D) (this : H) (h : Handle D A) :
    (s.record this h.mDeleter h.mPtr).pairs
      = { s.pairs with deleted := s.pairs.deleted ++ h.pair.toList } := by
  rw [State.record, Handle.pair]
  cases hptr : h.mPtr with
  | none => simp
  | some p =>
      rw [if_neg (Option.some_ne_none p)]
      refine congrArg (Pairs.mk _) ?_
      rw [List.filterMap_append]
      rfl

omit [DecidableEq H] in
theorem pairs_owns {h : Handle D A} (hthis : s.handle this = some h) :
    s.pairs.owns this = h.pair := by
  show (s.handle this).bind _ = _
  rw [hthis, Option.bind_some]

theorem pairs_handedOver {k : Handle D A} {deleter : D} (hother : s.handle other = some k)
    (hpair : (⟨deleter, k.mPtr⟩ : Handle D A).pair = k.pair) :
    (s.handedOver E this other deleter k).pairs = s.pairs.move this other := by
  rw [State.handedOver, pairs_set, pairs_set, Pairs.move, pairs_owns hother, Option.bind_some,
    hpair]
  rfl

theorem pairs_cleared {h : Handle D A} (hthis : s.handle this = some h) :
    (s.cleared E this h).pairs = s.pairs.clear this := by
  rw [State.cleared, pairs_set, pairs_record, Pairs.clear, pairs_owns hthis]
  rfl

/-- A move assignment under the condition: the old object is deleted by its own deleter,
    and the new one keeps its own. -/
theorem pairs_moveAssign {h k : Handle D A} (hne : this ≠ other) (hthis : s.handle this = some h)
    (hother : s.handle other = some k)
    (hkeeps : KeepsDeleters E s (.moveAssign this other, ptr)) :
    ((s.record this k.mDeleter h.mPtr).handedOver E this other
      (E.after k.mDeleter h.mPtr) k).pairs = (s.pairs.clear this).move this other := by
  have hboth : s.record this k.mDeleter h.mPtr = s.record this h.mDeleter h.mPtr
      ∧ (⟨E.after k.mDeleter h.mPtr, k.mPtr⟩ : Handle D A).pair = k.pair := by
    rw [State.record, State.record, DeleterType.after]
    cases hptr : h.mPtr with
    | none => exact ⟨rfl, rfl⟩
    | some p =>
        obtain ⟨hsame, hcall⟩ := hkeeps hne p (by rw [held_of_handle hthis, hptr])
        simp only [State.deleter, hthis, hother, Option.map_some, Option.some.injEq,
          held_of_handle hother] at hsame hcall
        rw [hsame]
        refine ⟨rfl, ?_⟩
        rw [if_neg (Option.some_ne_none p), Handle.pair, Handle.pair]
        cases hk : k.mPtr with
        | none => rfl
        | some q => rw [← hsame, hcall (hk ▸ Option.some_ne_none q)]
  rw [pairs_handedOver (by rwa [record_handle]) hboth.2, hboth.1, pairs_record,
    Pairs.clear_move hne, pairs_owns hthis]
  rfl

/-- **Each operation keeps objects and deleters together**, under the condition. -/
theorem does_pairs (hdoes : Does E s op ptr s') (hkeeps : KeepsDeleters E s (op, ptr)) :
    s'.pairs = s.pairs.after E op := by
  cases hdoes with
  | construct this hnone => exact pairs_set _ _ _
  | constructFrom this ptr hnone => exact pairs_set _ _ _
  | constructWith this ptr deleter hnone => exact pairs_set _ _ _
  | moveConstruct this other k hnone hother hne => exact pairs_handedOver hother rfl
  | moveAssignSelf this => exact (if_pos rfl).symm
  | moveAssign this other h k hne hthis hother =>
      rw [pairs_moveAssign hne hthis hother hkeeps]
      exact (if_neg hne).symm
  | assignNull this h hthis => exact pairs_cleared hthis
  | release this h hthis => exact pairs_set _ _ _
  | destruct this h hthis =>
      rw [pairs_set, pairs_cleared hthis, Pairs.put, Pairs.clear, Function.update_idem]
      rfl

/-- The handles refine the pairs. -/
theorem refines : Simulation ((handles E).restrict (KeepsDeleters E)) (pairs (H := H) E)
    (fun s t => t = s.pairs) where
  init s hs := ⟨s.pairs, by rw [show s = _ from hs]; rfl, rfl⟩
  step s t a s' := by
    rintro rfl ⟨hstep, hkeeps⟩
    exact ⟨s'.pairs, does_pairs (exec_does hstep) hkeeps, rfl⟩

/-- Both objects have the deleter `5`. -/
def assignSameDeleter : List (Event Bool Nat Nat) :=
  [(.constructWith true (some 1) 5, none), (.constructWith false (some 2) 5, none),
    (.moveAssign true false, none)]

/-- The objects have the deleters `10` and `20`. -/
def assignOtherDeleter : List (Event Bool Nat Nat) :=
  [(.constructWith true (some 1) 10, none), (.constructWith false (some 2) 20, none),
    (.moveAssign true false, none)]

end OwningPointer
