import CppPlayground.MemoryPool.FreeList

/-! # `MemoryPool`: an allocation that fails

    `allocate` moves `m_next_free` on only after the constructor has returned, so that a
    constructor that throws leaves the pool as it was.  It leaves `m_next_free` as it was;
    but the constructor has been running on the bytes of the link of that very slot, and
    the free list behind it is the same exactly if these bytes are. -/

namespace MemoryPool

open Program Bytes Transition LinkedList

variable {L : Layout} {w w' : World} {free : List Nat} {writes : Writes}

/-- One call, whose constructor throws if `fails` says so. -/
def execThrowing (L : Layout) (fails : Bool) (w : World) : Op → Outcome Exn Nat × World
  | .allocate writes =>
      match allocate L fails writes w.pool with
      | (.ok ptr, p) => (.ok ptr, ⟨p, ptr :: w.live⟩)
      | (out, p) => (out, ⟨p, w.live⟩)
  | .deallocate ptr writes => exec L w (.deallocate ptr writes)

/-- Whether the constructor throws, the operation, and how it ended. -/
abbrev Event : Type := Bool × Op × Outcome Exn Nat

/-- The runs of a pool whose constructors may throw. -/
def failingPools (L : Layout) : System World Event where
  init w := (pools L).init w
  step w a w' := Legal w a.2.1 ∧ execThrowing L a.1 w a.2.1 = (a.2.2, w')

/-- How the calls of a sequence end. -/
def behaviour (L : Layout) : World → List (Bool × Op) → List (Outcome Exn Nat)
  | _, [] => []
  | w, (fails, op) :: calls =>
      (execThrowing L fails w op).1 :: behaviour L (execThrowing L fails w op).2 calls

theorem execThrowing_false (L : Layout) (w : World) (op : Op) :
    execThrowing L false w op = exec L w op := by
  cases op <;> rfl

/-- The state after a constructor has thrown in the slot at the head. -/
def failed (L : Layout) (w : World) (writes : Writes) : World :=
  ⟨⟨w.pool.mNextFree, constructed L w.pool w.pool.mNextFree writes⟩, w.live⟩

/-! ## The ways a call can begin -/

theorem execThrowing_null (h : w.pool.mNextFree = 0) (fails : Bool) (writes : Writes) :
    execThrowing L fails w (.allocate writes) = (.threw .badAlloc, w) := by
  simp only [execThrowing, allocate_null h]

/-- The constructor throws: the bytes it has written stay. -/
theorem execThrowing_failed (h : L.IsSlot w.pool.mNextFree) (writes : Writes) :
    execThrowing L true w (.allocate writes) = (.threw .element, failed L w writes) := by
  have hwp : wp (allocate L true writes) (fun _ _ => False)
      (fun e p => e = .element ∧ p = (failed L w writes).pool) w.pool := by
    simp [allocate, writeObject, storageOffset, h, h.ne_zero, constructed, failed]
  obtain ⟨e, hthrew, rfl, hp⟩ := wp_threw hwp
  have hrun : allocate L true writes w.pool = (.threw .element, (failed L w writes).pool) :=
    Prod.ext hthrew hp
  simp only [execThrowing, hrun]
  rfl

/-- `m_next_free` has been overwritten with something that is no slot. -/
theorem execThrowing_lost (h0 : w.pool.mNextFree ≠ 0) (h : ¬ L.IsSlot w.pool.mNextFree)
    (fails : Bool) (writes : Writes) :
    execThrowing L fails w (.allocate writes) = (.undefined, w) := by
  have hwrite : writeObject L (w.pool.mNextFree + storageOffset) writes w.pool
      = (.undefined, w.pool) := by
    rw [storageOffset, Nat.add_zero, writeObject, change, if_neg h]
  have hrun : allocate L fails writes w.pool = (.undefined, w.pool) := by
    have hhead : (gets Pool.mNextFree : Prog Pool Exn Nat) w.pool
        = (.ok w.pool.mNextFree, w.pool) := rfl
    rw [allocate, bind_of_ok hhead, if_neg h0]
    exact bind_of_undefined hwrite
  simp only [execThrowing, hrun]

/-- `deallocate` of what is no object of the pool. -/
theorem exec_deallocate_wrong {ptr : Nat} (h0 : ptr ≠ 0) (h : ¬ L.IsSlot ptr) (w : World)
    (writes : Writes) :
    exec L w (.deallocate ptr writes) = (.undefined, ⟨w.pool, w.live.erase ptr⟩) := by
  have hwrite : writeObject L ptr writes w.pool = (.undefined, w.pool) := by
    rw [writeObject, change, if_neg h]
  have hrun : deallocate L ptr writes w.pool = (.undefined, w.pool) := by
    rw [deallocate, if_neg h0]
    exact bind_of_undefined hwrite
  have hcall : (do deallocate L ptr writes; pure 0 : Prog Pool Exn Nat) w.pool
      = (.undefined, w.pool) := bind_of_undefined hrun
  simp only [exec, hcall]

/-! ## The free list after a failure -/

/-- The constructor writes into the one slot only. -/
theorem failed_next_other {a b : Nat} (ha : w.pool.mNextFree = a) (hslot : L.IsSlot a)
    (hb : L.IsSlot b) (hne : a ≠ b) : (failed L w writes).pool.next b = w.pool.next b := by
  subst ha
  refine loadNat_congr fun j hj => ?_
  exact storeBytes_other hslot hb hne _ writes (Nat.lt_of_lt_of_le hj L.holds_next)

/-- The free list, a list of slots that starts in `m_next_free`, is the same after the
    failure exactly if the constructor keeps the link. -/
theorem failed_chain_iff (hchain : Chain w.pool.next 0 w.pool.mNextFree free)
    (hslots : ∀ a ∈ free, L.IsSlot a) (hne : w.pool.mNextFree ≠ 0) :
    Chain (failed L w writes).pool.next 0 (failed L w writes).pool.mNextFree free
      ↔ KeepsLink L w (.allocate writes) := by
  have hnodup := hchain.nodup
  rw [keepsLink_iff hne]
  cases free with
  | nil => exact absurd hchain hne
  | cons a rest =>
      obtain ⟨hhead, -, hrest⟩ := hchain
      have hslot : L.IsSlot a := hslots a (List.mem_cons_self ..)
      constructor
      · -- the rest of the list starts where the link leads, before and after
        rintro ⟨-, -, hrest'⟩
        rw [← hhead] at hrest hrest'
        exact hrest'.start_unique hrest
      · intro hlink
        refine ⟨hhead, hslot.ne_zero, ?_⟩
        have hstart : (failed L w writes).pool.next a = w.pool.next a := by
          rw [← hhead]
          exact hlink
        rw [hstart]
        refine hrest.congr fun b hb => ?_
        exact failed_next_other hhead hslot (hslots b (List.mem_cons_of_mem a hb))
          fun heq => (List.nodup_cons.mp hnodup).1 (heq ▸ hb)

/-! ## What follows a failure -/

/-- Two pools with the same head, the same links in all slots and the same live objects. -/
structure SameLinks (L : Layout) (w w' : World) : Prop where
  head : w'.pool.mNextFree = w.pool.mNextFree
  live : w'.live = w.live
  bytes : ∀ a, L.IsSlot a → ∀ j < 8, w'.pool.mem (a + j) = w.pool.mem (a + j)

theorem storeBytes_same {m m' : Memory} {x : Nat} (hx : m' x = m x) (a n : Nat) :
    storeBytes m' a n writes x = storeBytes m a n writes x := by
  rw [storeBytes, storeBytes, hx]

theorem storeNat_same {m m' : Memory} {x : Nat} (hx : m' x = m x) (a n v : Nat) :
    storeNat m' a n v x = storeNat m a n v x := by
  rw [storeNat, storeNat, hx]

theorem SameLinks.constructed_bytes (h : SameLinks L w w') (writes : Writes) (a : Nat) :
    ∀ b, L.IsSlot b → ∀ j < 8,
      constructed L w'.pool a writes (b + j) = constructed L w.pool a writes (b + j) :=
  fun b hb j hj => storeBytes_same (h.bytes b hb j hj) a L.sizeT

theorem SameLinks.allocate (h : SameLinks L w w') (fails : Bool) (writes : Writes) :
    (execThrowing L fails w' (.allocate writes)).1 = (execThrowing L fails w (.allocate writes)).1
      ∧ SameLinks L (execThrowing L fails w (.allocate writes)).2
          (execThrowing L fails w' (.allocate writes)).2 := by
  by_cases h0 : w.pool.mNextFree = 0
  · rw [execThrowing_null h0, execThrowing_null (h.head.trans h0)]
    exact ⟨rfl, h⟩
  by_cases hslot : L.IsSlot w.pool.mNextFree
  · have hslot' : L.IsSlot w'.pool.mNextFree := by rw [h.head]; exact hslot
    have hbytes := h.constructed_bytes writes w.pool.mNextFree
    cases fails with
    | true =>
        rw [execThrowing_failed hslot, execThrowing_failed hslot']
        refine ⟨rfl, h.head, h.live, ?_⟩
        show ∀ b, L.IsSlot b → ∀ j < 8,
          constructed L w'.pool w'.pool.mNextFree writes (b + j) = _
        rw [h.head]
        exact hbytes
    | false =>
        rw [execThrowing_false, execThrowing_false, exec_allocate_slot hslot,
          exec_allocate_slot hslot', h.head, h.live]
        exact ⟨rfl, loadNat_congr (hbytes _ hslot), rfl, hbytes⟩
  · have hslot' : ¬ L.IsSlot w'.pool.mNextFree := by rw [h.head]; exact hslot
    rw [execThrowing_lost h0 hslot, execThrowing_lost (by rw [h.head]; exact h0) hslot']
    exact ⟨rfl, h⟩

theorem SameLinks.deallocate (h : SameLinks L w w') (ptr : Nat) (writes : Writes) :
    (exec L w' (.deallocate ptr writes)).1 = (exec L w (.deallocate ptr writes)).1
      ∧ SameLinks L (exec L w (.deallocate ptr writes)).2
          (exec L w' (.deallocate ptr writes)).2 := by
  by_cases h0 : ptr = 0
  · subst h0
    have hnull : ∀ w : World, exec L w (.deallocate 0 writes)
        = (.ok 0, ⟨w.pool, w.live.erase 0⟩) := fun _ => rfl
    rw [hnull, hnull]
    exact ⟨rfl, h.head, by rw [h.live], h.bytes⟩
  by_cases hslot : L.IsSlot ptr
  · rw [exec_deallocate_slot hslot, exec_deallocate_slot hslot]
    refine ⟨rfl, rfl, by rw [h.live], ?_⟩
    intro b hb j hj
    show storeNat _ ptr 8 w'.pool.mNextFree (b + j) = _
    rw [h.head]
    exact storeNat_same (storeBytes_same (h.bytes b hb j hj) ptr L.sizeT) ptr 8 _
  · rw [exec_deallocate_wrong h0 hslot, exec_deallocate_wrong h0 hslot]
    exact ⟨rfl, h.head, by rw [h.live], h.bytes⟩

/-- **A call ends alike** in two such pools and leaves two such pools. -/
theorem SameLinks.call (h : SameLinks L w w') (fails : Bool) (op : Op) :
    (execThrowing L fails w' op).1 = (execThrowing L fails w op).1
      ∧ SameLinks L (execThrowing L fails w op).2 (execThrowing L fails w' op).2 := by
  cases op with
  | allocate writes => exact h.allocate fails writes
  | deallocate ptr writes => exact h.deallocate ptr writes

/-- Every sequence of calls ends alike in two such pools. -/
theorem SameLinks.behaviour_eq (h : SameLinks L w w') (calls : List (Bool × Op)) :
    behaviour L w' calls = behaviour L w calls := by
  induction calls generalizing w w' with
  | nil => rfl
  | cons call calls ih =>
      obtain ⟨hout, hnext⟩ := h.call call.1 call.2
      rw [behaviour, behaviour, hout, ih hnext]

/-- A constructor that keeps the link leaves the links of all slots. -/
theorem failed_sameLinks (hslot : L.IsSlot w.pool.mNextFree)
    (hkeeps : KeepsLink L w (.allocate writes)) : SameLinks L w (failed L w writes) := by
  refine ⟨rfl, rfl, ?_⟩
  intro b hb j hj
  by_cases hne : w.pool.mNextFree = b
  · subst hne
    exact loadNat_inj ((keepsLink_iff hslot.ne_zero writes).mp hkeeps) j hj
  · exact storeBytes_other hslot hb hne _ writes (Nat.lt_of_lt_of_le hj L.holds_next)

/-- How an allocation ends whose constructor does not throw. -/
theorem allocate_ends (w : World) (writes : Writes) :
    (execThrowing L false w (.allocate writes)).1 = if w.pool.mNextFree = 0 then .threw .badAlloc
      else if L.IsSlot w.pool.mNextFree then .ok w.pool.mNextFree else .undefined := by
  by_cases h0 : w.pool.mNextFree = 0
  · rw [if_pos h0, execThrowing_null h0]
  · rw [if_neg h0]
    by_cases hslot : L.IsSlot w.pool.mNextFree
    · rw [if_pos hslot, execThrowing_false, exec_allocate_slot hslot]
    · rw [if_neg hslot, execThrowing_lost h0 hslot]

/-- Two allocations whose constructors write nothing. -/
def twoAllocations : List (Bool × Op) :=
  [(false, .allocate fun _ => none), (false, .allocate fun _ => none)]

/-- The first of them gets the slot at the head, and the second follows the link of it. -/
theorem behaviour_twoAllocations (hslot : L.IsSlot w.pool.mNextFree) :
    behaviour L w twoAllocations = [.ok w.pool.mNextFree,
      if w.pool.next w.pool.mNextFree = 0 then .threw .badAlloc
      else if L.IsSlot (w.pool.next w.pool.mNextFree) then .ok (w.pool.next w.pool.mNextFree)
      else .undefined] := by
  have hfirst : execThrowing L false w (.allocate fun _ => none)
      = (.ok w.pool.mNextFree, ⟨⟨w.pool.next w.pool.mNextFree, w.pool.mem⟩,
          w.pool.mNextFree :: w.live⟩) := by
    have hnothing : constructed L w.pool w.pool.mNextFree (fun _ => none) = w.pool.mem := by
      funext x
      rw [constructed, storeBytes]
      split <;> rfl
    rw [execThrowing_false, exec_allocate_slot hslot, hnothing]
    rfl
  rw [twoAllocations, behaviour, hfirst, behaviour, behaviour, allocate_ends]

/-- Where the second allocation goes gives the link away, if it leads to a slot or to
    nothing. -/
theorem link_of_behaviour {next next' : Nat} (hnext : next = 0 ∨ L.IsSlot next)
    (hsame : (if next' = 0 then .threw .badAlloc
        else if L.IsSlot next' then .ok next' else .undefined : Outcome Exn Nat)
      = if next = 0 then .threw .badAlloc
        else if L.IsSlot next then .ok next else .undefined) : next' = next := by
  by_cases h0' : next' = 0
  · subst h0'
    rcases hnext with rfl | hslot
    · rfl
    · simp [hslot, hslot.ne_zero] at hsame
  · rw [if_neg h0'] at hsame
    by_cases hslot' : L.IsSlot next'
    · rcases hnext with rfl | hslot
      · simp [hslot'] at hsame
      · simpa [hslot', hslot, hslot.ne_zero] using hsame
    · rcases hnext with rfl | hslot
      · simp [hslot'] at hsame
      · simp [hslot', hslot, hslot.ne_zero] at hsame

/-- Every later sequence of calls ends as without the failed call exactly if the
    constructor keeps the link. -/
theorem failed_behaviour_iff (hchain : Chain w.pool.next 0 w.pool.mNextFree free)
    (hslots : ∀ a ∈ free, L.IsSlot a) (hne : w.pool.mNextFree ≠ 0) :
    (∀ calls, behaviour L (failed L w writes) calls = behaviour L w calls)
      ↔ KeepsLink L w (.allocate writes) := by
  cases free with
  | nil => exact absurd hchain hne
  | cons a rest =>
      obtain ⟨hhead, -, hrest⟩ := hchain
      rw [← hhead] at hrest
      have hslot : L.IsSlot w.pool.mNextFree := by
        rw [hhead]
        exact hslots a (List.mem_cons_self ..)
      constructor
      · intro hsame
        have htwo := hsame twoAllocations
        rw [behaviour_twoAllocations hslot, behaviour_twoAllocations (w := failed L w writes) hslot]
          at htwo
        have hnext : w.pool.next w.pool.mNextFree = 0
            ∨ L.IsSlot (w.pool.next w.pool.mNextFree) := by
          cases rest with
          | nil => exact Or.inl hrest
          | cons b rest =>
              rw [hrest.1]
              exact Or.inr (hslots b (List.mem_cons_of_mem a (List.mem_cons_self ..)))
        have hlast := (List.cons.inj (List.cons.inj htwo).2).1
        exact (keepsLink_iff hne writes).mpr (link_of_behaviour hnext hlast)
      · intro hkeeps calls
        exact (failed_sameLinks hslot hkeeps).behaviour_eq calls

/-! ## Whole runs -/

/-- The constructor throws and leaves the pool as if `allocate` had not been called: the
    chain from `m_next_free` visits the same list of slots, those without a live object,
    and every sequence of further calls ends as it would have. -/
structure FailsCleanly (L : Layout) (w : World) (writes : Writes) : Prop where
  threw : (execThrowing L true w (.allocate writes)).1 = .threw .element
  chain : ∃ free, (∀ a, a ∈ free ↔ L.IsSlot a ∧ a ∉ w.live)
    ∧ Chain w.pool.next 0 w.pool.mNextFree free
    ∧ Chain (execThrowing L true w (.allocate writes)).2.pool.next 0
        (execThrowing L true w (.allocate writes)).2.pool.mNextFree free
  later : ∀ calls, behaviour L (execThrowing L true w (.allocate writes)).2 calls
    = behaviour L w calls

theorem Intact.failsCleanly_iff (h : Intact L w) (hne : w.pool.mNextFree ≠ 0)
    (writes : Writes) : FailsCleanly L w writes ↔ KeepsLink L w (.allocate writes) := by
  obtain ⟨free, hchain, hmem⟩ := h.chain
  have hslots : ∀ a ∈ free, L.IsSlot a := fun a ha => ((hmem a).mp ha).1
  have hrun := execThrowing_failed (h.head hne).1 writes
  constructor
  · intro hclean
    refine (failed_behaviour_iff hchain hslots hne).mp ?_
    have hlater := hclean.later
    rwa [hrun] at hlater
  · intro hkeeps
    refine ⟨by rw [hrun], ⟨free, hmem, hchain, ?_⟩, ?_⟩
    · rw [hrun]
      exact (failed_chain_iff hchain hslots hne).mpr hkeeps
    · rw [hrun]
      exact (failed_behaviour_iff hchain hslots hne).mpr hkeeps

/-- One call whose constructor keeps the link, throwing or not. -/
theorem intact_execThrowing (h : Intact L w) (fails : Bool) (op : Op) (hlegal : Legal w op)
    (hkeeps : KeepsLink L w op) : Intact L (execThrowing L fails w op).2 := by
  cases fails with
  | false =>
      rw [execThrowing_false]
      exact (intact_step_iff h op hlegal).mpr hkeeps
  | true =>
      cases op with
      | deallocate ptr writes => exact deallocate_intact h hlegal writes
      | allocate writes =>
          by_cases h0 : w.pool.mNextFree = 0
          · rw [execThrowing_null h0]
            exact h
          · obtain ⟨free, hchain, hmem⟩ := h.chain
            have hslots : ∀ a ∈ free, L.IsSlot a := fun a ha => ((hmem a).mp ha).1
            rw [execThrowing_failed (h.head h0).1]
            exact ⟨⟨free, (failed_chain_iff hchain hslots h0).mpr hkeeps, hmem⟩, h.live_slot,
              h.live_nodup⟩

/-- **When a failed `allocate` leaves the pool intact**: after every run whose constructors,
    those that threw included, have kept the link of their slot, exactly if this one
    does. -/
theorem runs_failCleanly_iff {tr : List Event}
    (h : Run ((failingPools L).restrict fun w a => KeepsLink L w a.2.1) tr w)
    (hfree : ∃ a, L.IsSlot a ∧ a ∉ w.live) (writes : Writes) :
    FailsCleanly L w writes ↔ KeepsLink L w (.allocate writes) := by
  have hi : Intact L w := by
    refine Run.invariant (S := (failingPools L).restrict _) (I := fun _ w => Intact L w)
      (fun w hw => intact_init hw) ?_ h
    rintro as w ⟨fails, op, out⟩ w' - hI ⟨⟨hlegal, hexec⟩, hkeeps⟩
    have hnext := intact_execThrowing hI fails op hlegal hkeeps
    rwa [hexec] at hnext
  obtain ⟨a, ha, hlive⟩ := hfree
  exact hi.failsCleanly_iff (fun h0 => hlive (hi.full h0 a ha)) writes

theorem run_newFailingPool (C : World → Event → Prop) :
    Run ((failingPools twoSlots).restrict C) [] newPool :=
  .start ⟨fun _ => 0, rfl, rfl⟩

/-- An allocation whose constructor throws before it has written anything. -/
def throwAtOnce : List Event := [(true, .allocate fun _ => none, .threw .element)]

theorem throwAtOnce_failsCleanly : ∃ w,
    Run ((failingPools twoSlots).restrict fun w a => KeepsLink twoSlots w a.2.1) throwAtOnce w
      ∧ FailsCleanly twoSlots w fun _ => none := by
  have hnothing : ∀ w, KeepsLink twoSlots w (.allocate fun _ => none) :=
    fun _ _ _ _ _ _ hv => nomatch hv
  have hrun : Run ((failingPools twoSlots).restrict fun w a => KeepsLink twoSlots w a.2.1)
      throwAtOnce (failed twoSlots newPool fun _ => none) :=
    .snoc (run_newFailingPool _) ⟨⟨trivial, rfl⟩, hnothing newPool⟩
  exact ⟨_, hrun, (runs_failCleanly_iff hrun ⟨4096, ⟨0, by decide, rfl⟩, List.not_mem_nil⟩ _).mpr
    (hnothing _)⟩

/-- **A constructor that writes zeros and throws loses the rest of the free list**: of two
    allocations that follow, the second fails. -/
theorem failure_loses_slot : ¬ ∀ (L : Layout) (tr : List Event) (w : World),
    Run (failingPools L) tr w → (∃ a, L.IsSlot a ∧ a ∉ w.live) →
      ∀ writes, FailsCleanly L w writes := by
  intro hall
  have hclean := hall twoSlots [] newPool (run_newFailingPool fun _ _ => True).of_restrict
    ⟨4096, ⟨0, by decide, rfl⟩, List.not_mem_nil⟩ fun _ => some 0
  have hlater := hclean.later twoAllocations
  have hafter : behaviour twoSlots
      (execThrowing twoSlots true newPool (.allocate fun _ => some 0)).2 twoAllocations
      = [.ok 4096, .threw .badAlloc] := rfl
  have hbefore : behaviour twoSlots newPool twoAllocations = [.ok 4096, .ok 4104] := rfl
  rw [hafter, hbefore] at hlater
  exact absurd hlater (by decide)

end MemoryPool
