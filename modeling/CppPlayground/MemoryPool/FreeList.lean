import CppPlayground.Lib.Chain
import CppPlayground.MemoryPool.Model

/-! # `MemoryPool`: the free list in the bytes of the slots

    `Intact` says that the chain from `m_next_free` visits exactly the slots without a
    live object.  It is all a call needs to do its own work (`Intact.calls`), but
    `allocate` reads the link it follows after the constructor has run over it: it keeps
    the pool intact exactly if the constructor leaves the bytes of the link as they were
    (`allocate_intact_iff`).  `runs_correct_of_keepsLink` reads this over whole runs, and
    `allocate_loses_slot` is a run in which a constructor does not. -/

namespace MemoryPool

open Program Bytes Transition LinkedList

variable {L : Layout} {w : World} {p : Pool} {a b : Nat}

/-! ## Slots are apart -/

theorem Layout.IsSlot.pos (h : L.IsSlot a) : 0 < a := by
  obtain ⟨i, -, rfl⟩ := h
  exact Nat.lt_of_lt_of_le L.base_pos (Nat.le_add_right _ _)

theorem Layout.IsSlot.ne_zero (h : L.IsSlot a) : a ≠ 0 := Nat.pos_iff_ne_zero.mp h.pos

theorem mul_slotSize_le (L : Layout) {i j : Nat} (h : i < j) :
    i * L.slotSize + L.slotSize ≤ j * L.slotSize := by
  rw [← Nat.succ_mul]
  exact Nat.mul_le_mul_right _ h

/-- An address fits into a `next` pointer. -/
theorem Layout.IsSlot.lt (h : L.IsSlot a) : a < 256 ^ 8 := by
  obtain ⟨i, hi, rfl⟩ := h
  have hle := mul_slotSize_le L hi
  have hmem := L.in_memory
  have hpow : (256 : Nat) ^ 8 = 2 ^ 64 := by decide
  rw [hpow, Layout.slot]
  omega

theorem slot_injective {i j : Nat} (h : L.slot i = L.slot j) : i = j := by
  have hnext := L.holds_next
  rw [Layout.slot, Layout.slot] at h
  rcases Nat.lt_trichotomy i j with hlt | heq | hlt
  · have := mul_slotSize_le L hlt
    omega
  · exact heq
  · have := mul_slotSize_le L hlt
    omega

/-- Different slots share no byte. -/
theorem slots_apart (ha : L.IsSlot a) (hb : L.IsSlot b) (hne : a ≠ b) :
    a + L.slotSize ≤ b ∨ b + L.slotSize ≤ a := by
  obtain ⟨i, -, rfl⟩ := ha
  obtain ⟨j, -, rfl⟩ := hb
  rw [Layout.slot, Layout.slot] at *
  rcases Nat.lt_trichotomy i j with hlt | heq | hlt
  · have := mul_slotSize_le L hlt
    omega
  · exact absurd (heq ▸ rfl) hne
  · have := mul_slotSize_le L hlt
    omega

/-- What a call writes into one slot leaves the bytes of the others alone. -/
theorem storeNat_other (ha : L.IsSlot a) (hb : L.IsSlot b) (hne : a ≠ b) (m : Memory)
    (v : Nat) {j : Nat} (hj : j < L.slotSize) : storeNat m a 8 v (b + j) = m (b + j) := by
  have hnext := L.holds_next
  have := slots_apart ha hb hne
  exact storeNat_frame (by omega)

theorem storeBytes_other (ha : L.IsSlot a) (hb : L.IsSlot b) (hne : a ≠ b) (m : Memory)
    (writes : Writes) {j : Nat} (hj : j < L.slotSize) :
    storeBytes m a L.sizeT writes (b + j) = m (b + j) := by
  have hobj := L.holds_object
  have := slots_apart ha hb hne
  exact storeBytes_frame (by omega)

/-- The links of the slots. -/
def Pool.next (p : Pool) (a : Nat) : Nat := loadNat p.mem a 8

/-! ## The free list -/

/-- The chain from `m_next_free` visits exactly the slots without a live object, and no
    two live objects share a slot. -/
structure Intact (L : Layout) (w : World) : Prop where
  chain : ∃ free, Chain w.pool.next 0 w.pool.mNextFree free
    ∧ ∀ a, a ∈ free ↔ L.IsSlot a ∧ a ∉ w.live
  live_slot : ∀ a ∈ w.live, L.IsSlot a
  live_nodup : w.live.Nodup

/-- The bytes of the object at `a` are the same in both memories. -/
def SameObject (L : Layout) (m m' : Memory) (a : Nat) : Prop :=
  ∀ j < L.sizeT, m' (a + j) = m (a + j)

/-- What the calls do: `allocate` finds a slot without a live object, or throws
    `bad_alloc` if there is none, and no call touches the bytes of another live
    object. -/
structure Calls (L : Layout) (w : World) : Prop where
  allocate_full : (∀ a, L.IsSlot a → a ∈ w.live) → ∀ writes,
    exec L w (.allocate writes) = (.threw .badAlloc, w)
  allocate_free : ∀ a, L.IsSlot a → a ∉ w.live → ∀ writes, ∃ ptr p,
    exec L w (.allocate writes) = (.ok ptr, ⟨p, ptr :: w.live⟩)
      ∧ L.IsSlot ptr ∧ ptr ∉ w.live ∧ ∀ b ∈ w.live, SameObject L w.pool.mem p.mem b
  deallocate : ∀ ptr, ptr = 0 ∨ ptr ∈ w.live → ∀ writes, ∃ p,
    exec L w (.deallocate ptr writes) = (.ok 0, ⟨p, w.live.erase ptr⟩)
      ∧ ∀ b ∈ w.live, b ≠ ptr → SameObject L w.pool.mem p.mem b

/-- The free list is intact and the next call does what it should. -/
def Correct (L : Layout) (w : World) : Prop := Intact L w ∧ Calls L w

/-! ## `allocate` -/

/-- The memory after a constructor has run in the slot at `a`. -/
def constructed (L : Layout) (p : Pool) (a : Nat) (writes : Writes) : Memory :=
  storeBytes p.mem a L.sizeT writes

theorem allocate_null (h : w.pool.mNextFree = 0) (fails : Bool) (writes : Writes) :
    allocate L fails writes w.pool = (.threw .badAlloc, w.pool) := by
  have hwp : wp (allocate L fails writes) (fun _ _ => False)
      (fun e p => e = .badAlloc ∧ p = w.pool) w.pool := by
    simp [allocate, h]
  obtain ⟨e, hthrew, rfl, hp⟩ := wp_threw hwp
  exact Prod.ext hthrew hp

theorem exec_allocate_null (h : w.pool.mNextFree = 0) (writes : Writes) :
    exec L w (.allocate writes) = (.threw .badAlloc, w) := by
  simp only [exec, allocate_null h]

theorem exec_allocate_slot (h : L.IsSlot w.pool.mNextFree) (writes : Writes) :
    exec L w (.allocate writes)
      = (.ok w.pool.mNextFree,
        ⟨⟨loadNat (constructed L w.pool w.pool.mNextFree writes) w.pool.mNextFree 8,
          constructed L w.pool w.pool.mNextFree writes⟩, w.pool.mNextFree :: w.live⟩) := by
  have hwp : wp (allocate L false writes)
      (fun r p => r = w.pool.mNextFree ∧ p = ⟨loadNat (constructed L w.pool
        w.pool.mNextFree writes) w.pool.mNextFree 8,
        constructed L w.pool w.pool.mNextFree writes⟩) (fun _ _ => False) w.pool := by
    simp [allocate, writeObject, loadNext, setNextFree, storageOffset, h, h.ne_zero,
      constructed]
  obtain ⟨r, p, hrun, rfl, rfl⟩ := wp_returns hwp (fun _ _ he => he)
  simp only [exec, hrun]

/-- The slot at the head of the free list, and the chain behind it. -/
theorem Intact.head (h : Intact L w) (hne : w.pool.mNextFree ≠ 0) :
    L.IsSlot w.pool.mNextFree ∧ w.pool.mNextFree ∉ w.live
      ∧ ∃ rest, Chain w.pool.next 0 (w.pool.next w.pool.mNextFree) rest
        ∧ ∀ a, a ∈ rest ↔ L.IsSlot a ∧ a ∉ w.pool.mNextFree :: w.live := by
  obtain ⟨free, hchain, hmem⟩ := h.chain
  cases free with
  | nil => exact absurd hchain hne
  | cons a rest =>
      obtain ⟨hslot, hlive⟩ := (hmem a).mp (List.mem_cons_self ..)
      have hnodup := List.nodup_cons.mp hchain.nodup
      obtain ⟨hhead, -, hrest⟩ := hchain
      rw [hhead]
      refine ⟨hslot, hlive, rest, hrest, ?_⟩
      intro b
      rw [List.mem_cons, not_or]
      constructor
      · intro hb
        obtain ⟨hs, hl⟩ := (hmem b).mp (List.mem_cons_of_mem a hb)
        exact ⟨hs, fun heq => hnodup.1 (heq ▸ hb), hl⟩
      · rintro ⟨hs, hba, hl⟩
        rcases List.mem_cons.mp ((hmem b).mpr ⟨hs, hl⟩) with heq | hb
        · exact absurd heq hba
        · exact hb

/-- An empty free list means that every slot is taken. -/
theorem Intact.full (h : Intact L w) (h0 : w.pool.mNextFree = 0) :
    ∀ a, L.IsSlot a → a ∈ w.live := by
  obtain ⟨free, hchain, hmem⟩ := h.chain
  cases free with
  | nil =>
      intro a ha
      by_contra hlive
      exact absurd ((hmem a).mpr ⟨ha, hlive⟩) List.not_mem_nil
  | cons a rest => exact absurd (hchain.1.symm.trans h0) hchain.2.1

/-- The constructor leaves the link of the slot it runs in as it is. -/
def KeepsLink (L : Layout) (w : World) : Op → Prop
  | .allocate writes => w.pool.mNextFree ≠ 0 → ∀ j < 8, j < L.sizeT → ∀ v,
      writes j = some v → v = w.pool.mem (w.pool.mNextFree + j)
  | .deallocate _ _ => True

/-- In terms of the link itself. -/
theorem keepsLink_iff (hne : w.pool.mNextFree ≠ 0) (writes : Writes) :
    KeepsLink L w (.allocate writes)
      ↔ loadNat (constructed L w.pool w.pool.mNextFree writes) w.pool.mNextFree 8
        = w.pool.next w.pool.mNextFree := by
  have hbyte : ∀ j, constructed L w.pool w.pool.mNextFree writes (w.pool.mNextFree + j)
      = if j < L.sizeT then (writes j).getD (w.pool.mem (w.pool.mNextFree + j))
        else w.pool.mem (w.pool.mNextFree + j) := by
    intro j
    rw [constructed, storeBytes, Nat.add_sub_cancel_left]
    by_cases hj : j < L.sizeT
    · rw [if_pos (by omega), if_pos hj]
    · rw [if_neg (by omega), if_neg hj]
  constructor
  · intro hk
    refine loadNat_congr ?_
    intro j hj
    rw [hbyte j]
    by_cases hsize : j < L.sizeT
    · rw [if_pos hsize]
      cases hw : writes j with
      | none => rfl
      | some v => exact hk hne j hj hsize v hw
    · rw [if_neg hsize]
  · intro hload _ j hj hsize v hw
    -- equal words have equal bytes
    have := loadNat_inj hload j hj
    rwa [hbyte j, if_pos hsize, hw] at this

/-- **`allocate` keeps the pool intact exactly if the constructor keeps the link.** -/
theorem allocate_intact_iff (h : Intact L w) (writes : Writes) :
    Intact L (exec L w (.allocate writes)).2 ↔ KeepsLink L w (.allocate writes) := by
  by_cases h0 : w.pool.mNextFree = 0
  · rw [exec_allocate_null h0]
    exact iff_of_true h fun hne => absurd h0 hne
  · obtain ⟨hslot, hlive, rest, hrest, hmem⟩ := h.head h0
    rw [exec_allocate_slot hslot, keepsLink_iff h0]
    -- the links of the other free slots have not changed
    have hframe : Chain (fun a => loadNat (constructed L w.pool w.pool.mNextFree writes) a 8)
        0 (w.pool.next w.pool.mNextFree) rest := by
      refine hrest.congr fun a ha => loadNat_congr ?_
      intro j hj
      obtain ⟨hs, hnot⟩ := (hmem a).mp ha
      have hne : w.pool.mNextFree ≠ a := fun heq => hnot (heq ▸ List.mem_cons_self ..)
      exact storeBytes_other hslot hs hne _ writes (Nat.lt_of_lt_of_le hj L.holds_next)
    constructor
    · -- the chain from the new head visits the same slots, so it starts where `rest` starts
      intro hi
      obtain ⟨free, hchain, hfree⟩ := hi.chain
      exact hframe.head_eq hchain fun a => (hfree a).trans (hmem a).symm
    · intro heq
      refine ⟨⟨rest, ?_, hmem⟩, ?_, List.nodup_cons.mpr ⟨hlive, h.live_nodup⟩⟩
      · show Chain _ 0 (loadNat (constructed L w.pool w.pool.mNextFree writes) _ 8) rest
        rw [heq]
        exact hframe
      · intro a ha
        rcases List.mem_cons.mp ha with rfl | hmem'
        · exact hslot
        · exact h.live_slot a hmem'

/-! ## `deallocate` -/

theorem exec_deallocate_null (hlive : ∀ a ∈ w.live, L.IsSlot a) (writes : Writes) :
    exec L w (.deallocate 0 writes) = (.ok 0, w) := by
  have hnot : 0 ∉ w.live := fun hmem => (hlive 0 hmem).ne_zero rfl
  have hrun : (do deallocate L 0 writes; pure 0 : Prog Pool Exn Nat) w.pool
      = (.ok 0, w.pool) := by
    rw [deallocate, if_pos rfl]
    rfl
  simp only [exec, hrun, List.erase_of_not_mem hnot]

/-- The memory after the destructor has run at `a` and the link has been set. -/
def released (L : Layout) (p : Pool) (a : Nat) (writes : Writes) : Memory :=
  storeNat (storeBytes p.mem a L.sizeT writes) a 8 p.mNextFree

theorem exec_deallocate_slot (h : L.IsSlot a) (writes : Writes) :
    exec L w (.deallocate a writes)
      = (.ok 0, ⟨⟨a, released L w.pool a writes⟩, w.live.erase a⟩) := by
  have hwp : wp (do deallocate L a writes; pure 0 : Prog Pool Exn Nat)
      (fun r p => r = 0 ∧ p = ⟨a, released L w.pool a writes⟩) (fun _ _ => False) w.pool := by
    simp [deallocate, writeObject, storeNext, setNextFree, slotFromObject, storageOffset, h,
      h.ne_zero, released]
  obtain ⟨r, p, hrun, rfl, rfl⟩ := wp_returns hwp (fun _ _ he => he)
  simp only [exec, hrun]

/-- `deallocate` writes into the one slot only. -/
theorem released_other (ha : L.IsSlot a) (hb : L.IsSlot b) (hne : a ≠ b) (p : Pool)
    (writes : Writes) {j : Nat} (hj : j < L.slotSize) :
    released L p a writes (b + j) = p.mem (b + j) := by
  rw [released, storeNat_other ha hb hne _ _ hj, storeBytes_other ha hb hne _ _ hj]

/-- **`deallocate` puts the slot of the object in front of the free list.** -/
theorem deallocate_intact (h : Intact L w) {ptr : Nat} (hlegal : ptr = 0 ∨ ptr ∈ w.live)
    (writes : Writes) : Intact L (exec L w (.deallocate ptr writes)).2 := by
  by_cases h0 : ptr = 0
  · subst h0
    rw [exec_deallocate_null h.live_slot]
    exact h
  · have hlive : ptr ∈ w.live := hlegal.resolve_left h0
    have hslot := h.live_slot ptr hlive
    rw [exec_deallocate_slot hslot]
    obtain ⟨free, hchain, hmem⟩ := h.chain
    refine ⟨⟨ptr :: free, ⟨rfl, h0, ?_⟩, ?_⟩, ?_, h.live_nodup.erase ptr⟩
    · -- the new link leads to the old free list, whose links have not changed
      have hlink : loadNat (released L w.pool ptr writes) ptr 8 = w.pool.mNextFree := by
        refine loadNat_storeNat _ _ _ ?_
        cases free with
        | nil => rw [show w.pool.mNextFree = 0 from hchain]; decide
        | cons b rest =>
            rw [hchain.1]
            exact ((hmem b).mp (List.mem_cons_self ..)).1.lt
      show Chain _ 0 (loadNat (released L w.pool ptr writes) ptr 8) free
      rw [hlink]
      refine hchain.congr fun b hb => loadNat_congr ?_
      intro j hj
      obtain ⟨hs, hnot⟩ := (hmem b).mp hb
      have hne : ptr ≠ b := fun heq => hnot (heq ▸ hlive)
      exact released_other hslot hs hne w.pool writes (Nat.lt_of_lt_of_le hj L.holds_next)
    · intro b
      show b ∈ ptr :: free ↔ L.IsSlot b ∧ b ∉ w.live.erase ptr
      rw [List.mem_cons, hmem, h.live_nodup.mem_erase_iff]
      by_cases hb : b = ptr
      · subst hb
        exact iff_of_true (Or.inl rfl) ⟨hslot, fun hand => hand.1 rfl⟩
      · constructor
        · rintro (heq | ⟨hs, hnot⟩)
          · exact absurd heq hb
          · exact ⟨hs, fun hand => hnot hand.2⟩
        · rintro ⟨hs, hnot⟩
          exact Or.inr ⟨hs, fun hmem' => hnot ⟨hb, hmem'⟩⟩
    · intro b hb
      exact h.live_slot b (List.mem_of_mem_erase hb)

/-! ## Every call of an intact pool -/

/-- A call on an intact pool does its work; what it leaves of the free list is another
    question. -/
theorem Intact.calls (h : Intact L w) : Calls L w where
  allocate_full hfull writes := by
    refine exec_allocate_null ?_ writes
    by_contra hne
    obtain ⟨hslot, hlive, -⟩ := h.head hne
    exact hlive (hfull _ hslot)
  allocate_free a ha hlive writes := by
    have hne : w.pool.mNextFree ≠ 0 := fun h0 => hlive (h.full h0 a ha)
    obtain ⟨hslot, hnot, -⟩ := h.head hne
    refine ⟨_, _, exec_allocate_slot hslot writes, hslot, hnot, ?_⟩
    intro b hb j hj
    have hapart : w.pool.mNextFree ≠ b := fun heq => hnot (heq ▸ hb)
    exact storeBytes_other hslot (h.live_slot b hb) hapart _ writes
      (Nat.lt_of_lt_of_le hj L.holds_object)
  deallocate ptr hlegal writes := by
    by_cases h0 : ptr = 0
    · subst h0
      have hnot : 0 ∉ w.live := fun hmem => (h.live_slot 0 hmem).ne_zero rfl
      refine ⟨w.pool, ?_, fun b _ _ j _ => rfl⟩
      rw [exec_deallocate_null h.live_slot, List.erase_of_not_mem hnot]
    · have hlive : ptr ∈ w.live := hlegal.resolve_left h0
      have hslot := h.live_slot ptr hlive
      refine ⟨_, exec_deallocate_slot hslot writes, ?_⟩
      intro b hb hne j hj
      exact released_other hslot (h.live_slot b hb) hne.symm w.pool writes
        (Nat.lt_of_lt_of_le hj L.holds_object)

theorem correct_iff_intact : Correct L w ↔ Intact L w :=
  ⟨fun h => h.1, fun h => ⟨h, h.calls⟩⟩

/-! ## Whole runs -/

/-- What the constructor leaves in slot `i`. -/
def Layout.link (L : Layout) (i : Nat) : Nat := if i < L.capacity then L.slot i else 0

/-- The slots from `i` on, chained by the links of the constructor. -/
theorem chain_slots {next : Nat → Nat}
    (hnext : ∀ i < L.capacity, next (L.slot i) = L.link (i + 1)) :
    ∀ n i, i + n = L.capacity →
      Chain next 0 (L.link i) ((List.range' i n).map L.slot) := by
  intro n
  -- from the last slot to the first, as the links lead
  induction n with
  | zero =>
      intro i hi
      exact if_neg (by omega)
  | succ n ih =>
      intro i hi
      have hlt : i < L.capacity := by omega
      have hslot : L.IsSlot (L.slot i) := ⟨i, hlt, rfl⟩
      refine ⟨if_pos hlt, hslot.ne_zero, ?_⟩
      rw [hnext i hlt]
      exact ih (i + 1) (by omega)

/-- The constructor links every slot. -/
theorem construct_spec (L : Layout) (p : Pool) {E : Exn → Pool → Prop} :
    wp (construct L) (fun _ p' => p'.mNextFree = L.link 0
      ∧ ∀ i < L.capacity, p'.next (L.slot i) = L.link (i + 1)) E p := by
  rw [construct, wp_bind, setNextFree, wp_modify, wp_bind]
  refine wp_mono (wp_forRange
    (fun n p' => ∀ i < n, p'.next (L.slot i) = L.link (i + 1)) ?_ ?_) ?_ (fun _ _ he => he)
  · intro n p' hn hI
    have hslot : L.IsSlot (L.slot n) := ⟨n, hn, rfl⟩
    rw [storeNext, wp_change]
    refine ⟨_, if_pos hslot, ?_⟩
    intro i hi
    by_cases heq : i = n
    · subst heq
      refine loadNat_storeNat _ _ _ ?_
      by_cases hlast : i + 1 < L.capacity
      · rw [if_pos hlast]
        exact Layout.IsSlot.lt ⟨i + 1, hlast, rfl⟩
      · rw [if_neg hlast]
        decide
    · have hlt : i < n := by omega
      have hi' : L.IsSlot (L.slot i) := ⟨i, by omega, rfl⟩
      have hne : L.slot n ≠ L.slot i := fun h => heq (slot_injective h).symm
      rw [← hI i hlt]
      exact loadNat_congr fun j hj =>
        storeNat_other hslot hi' hne _ _ (Nat.lt_of_lt_of_le hj L.holds_next)
  · intro i hi
    exact absurd hi (Nat.not_lt_zero i)
  · intro _ p' hI
    rw [setNextFree, wp_modify]
    refine ⟨?_, hI⟩
    show (if 0 < L.capacity then L.base else 0) = L.link 0
    rw [Layout.link, Layout.slot, Nat.zero_mul, Nat.add_zero]

/-- A new pool has all its slots on the free list. -/
theorem intact_init (h : (pools L).init w) : Intact L w := by
  obtain ⟨mem, hrun, hlive⟩ := h
  obtain ⟨_, p, hrun', hhead, hlinks⟩ := wp_returns (E := fun _ _ => False)
    (construct_spec L ⟨0, mem⟩) (fun _ _ he => he)
  rw [hrun, Prod.mk.injEq] at hrun'
  obtain ⟨-, rfl⟩ := hrun'
  refine ⟨⟨(List.range' 0 L.capacity).map L.slot, ?_, ?_⟩, ?_, ?_⟩
  · rw [hhead]
    exact chain_slots hlinks L.capacity 0 (Nat.zero_add _)
  · intro a
    rw [hlive, List.mem_map]
    constructor
    · rintro ⟨i, hi, rfl⟩
      have hlt : i < L.capacity := by simpa using hi
      exact ⟨⟨i, hlt, rfl⟩, List.not_mem_nil⟩
    · rintro ⟨⟨i, hi, rfl⟩, -⟩
      exact ⟨i, by simpa using hi, rfl⟩
  · rw [hlive]
    exact nofun
  · rw [hlive]
    exact List.nodup_nil

/-- One call. -/
theorem intact_step_iff (h : Intact L w) (op : Op) (hlegal : Legal w op) :
    Intact L (exec L w op).2 ↔ KeepsLink L w op := by
  cases op with
  | allocate writes => exact allocate_intact_iff h writes
  | deallocate ptr writes => exact iff_of_true (deallocate_intact h hlegal writes) trivial

/-- **The slot allocator.**  In every run in which each constructor leaves the link of
    its slot as it is, every state reached is correct: the free list visits exactly the
    slots without a live object and every call does what it should.  The condition
    cannot be weakened: the next call leads to a correct state exactly if it meets it. -/
theorem runs_correct_of_keepsLink {tr : List (Op × Outcome Exn Nat)}
    (h : Run ((pools L).restrict fun w a => KeepsLink L w a.1) tr w) :
    Correct L w ∧ ∀ op, Legal w op → (Correct L (exec L w op).2 ↔ KeepsLink L w op) := by
  have hi : Intact L w := by
    refine Run.invariant (S := (pools L).restrict _) (I := fun _ w => Intact L w)
      (fun w hw => intact_init hw) ?_ h
    rintro as w a w' - hI ⟨⟨hlegal, hexec⟩, hkeeps⟩
    have hnext := (intact_step_iff hI a.1 hlegal).mpr hkeeps
    rw [hexec] at hnext
    exact hnext
  refine ⟨correct_iff_intact.mpr hi, ?_⟩
  intro op hlegal
  rw [correct_iff_intact]
  exact intact_step_iff hi op hlegal

/-- Every legal call can be the next one. -/
theorem run_call {C : World → Op × Outcome Exn Nat → Prop} {tr : List (Op × Outcome Exn Nat)}
    (h : Run ((pools L).restrict C) tr w) (op : Op) (hlegal : Legal w op)
    (hC : C w (op, (exec L w op).1)) :
    Run ((pools L).restrict C) (tr ++ [(op, (exec L w op).1)]) (exec L w op).2 :=
  .snoc h ⟨⟨hlegal, rfl⟩, hC⟩

/-- Two slots for objects of eight bytes. -/
def twoSlots : Layout := ⟨2, 4096, 8, 8, by decide, by decide, by decide, by decide⟩

/-- A new pool of two slots in cleared memory. -/
def newPool : World := ⟨(construct twoSlots ⟨0, fun _ => 0⟩).2, []⟩

theorem run_newPool (C : World → Op × Outcome Exn Nat → Prop) :
    Run ((pools twoSlots).restrict C) [] newPool :=
  .start ⟨fun _ => 0, rfl, rfl⟩

/-- An object taken and given back; its constructor writes nothing. -/
def takeAndGiveBack : List (Op × Outcome Exn Nat) :=
  [(.allocate fun _ => none, .ok 4096), (.deallocate 4096 fun _ => some 7, .ok 0)]

theorem takeAndGiveBack_correct : ∃ w,
    Run ((pools twoSlots).restrict fun w a => KeepsLink twoSlots w a.1) takeAndGiveBack w
      ∧ Correct twoSlots w := by
  have hfirst := run_call (run_newPool fun w a => KeepsLink twoSlots w a.1)
    (.allocate fun _ => none) trivial (fun _ _ _ _ _ hv => nomatch hv)
  have hsecond := run_call hfirst (.deallocate 4096 fun _ => some 7)
    (Or.inr (List.mem_singleton_self _)) trivial
  exact ⟨_, hsecond, (runs_correct_of_keepsLink hsecond).1⟩

/-- **A constructor that writes zeros loses the rest of the free list**: after one
    allocation the pool of two slots claims to be full. -/
theorem allocate_loses_slot : ¬ ∀ (L : Layout) (tr : List (Op × Outcome Exn Nat)) (w : World),
    Run (pools L) tr w → Correct L w := by
  intro hall
  have hrun := run_call (run_newPool fun _ _ => True) (.allocate fun _ => some 0) trivial trivial
  obtain ⟨-, hcalls⟩ := hall _ _ _ hrun.of_restrict
  obtain ⟨ptr, p, hok, -⟩ := hcalls.allocate_free 4104 ⟨1, by decide, rfl⟩ (by decide)
    fun _ => some 0
  have hthrown : (exec twoSlots (exec twoSlots newPool (.allocate fun _ => some 0)).2
      (.allocate fun _ => some 0)).1 = .threw .badAlloc := rfl
  exact nomatch hthrown.symm.trans (congrArg Prod.fst hok)

end MemoryPool
