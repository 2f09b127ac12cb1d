import CppPlayground.Lib.Ownership
import CppPlayground.CharStringBuffer.Steps

/-! # Who frees the blocks of `CharStringBuffer`s

    The books of a run are a `Ledger`: the blocks that long buffers refer to, with their
    sizes, and what has been allocated and deallocated, with the counts.  An operation that
    meets its condition adopts a block, frees one, exchanges two or leaves the books as
    they are; an operation that does not meet it spoils them. -/

namespace CharStringBuffer

open Program Transition Ownership

variable {H : Type} {n : Nat} {s s' : State H n} {this other : H} {E : Environment n}
  {chars : List UInt8} {ptr count size : Nat} {b t o : Buffer n}

/-! ## The invariant -/

/-- The books. -/
def ledger (s : State H n) : Ledger H (Nat × Nat) := ⟨s.data, s.allocated, s.deallocated, []⟩

/-- A long buffer has a pointer; what a short buffer has instead of its characters is the
    pointer to a block that has been freed. -/
def Buffer.Formed (deallocated : List (Nat × Nat)) : Buffer n → Prop
  | ⟨.stackBuffer _, short⟩ => short = true
  | ⟨.heapBuffer h, false⟩ => ∃ ptr, h.ptr = some ptr
  | ⟨.heapBuffer h, true⟩ => ∀ ptr, h.ptr = some ptr → ptr ∈ deallocated.map Prod.fst

/-- **The invariant** of the runs in which every operation meets its condition. -/
structure Inv (s : State H n) : Prop where
  sound : (ledger s).Sound
  numbered : s.allocated.map Prod.fst = List.range s.blocks.length
  live : ∀ this ptr size, s.data this = some (ptr, size) →
    ∃ chars, s.block ptr = some chars ∧ chars.length = size
  formed : ∀ this b, s.buffer this = some b → b.Formed s.deallocated

theorem inv_start : Inv (⟨fun _ => none, [], [], []⟩ : State H n) where
  sound := sound_empty
  numbered := rfl
  live := fun _ _ _ h => by cases h
  formed := fun _ _ h => by cases h

/-- The allocations are numbered. -/
theorem Inv.nodup (h : Inv s) : (s.allocated.map Prod.fst).Nodup := by
  rw [h.numbered]
  exact List.nodup_range

/-- Two entries for one allocation are one. -/
theorem Inv.same_count (h : Inv s) {size' : Nat} (hmem : (ptr, size) ∈ s.allocated)
    (hmem' : (ptr, size') ∈ s.allocated) : size = size' :=
  congrArg Prod.snd (List.inj_on_of_nodup_map h.nodup hmem hmem' rfl)

theorem Inv.data_mem (h : Inv s) {d : Nat × Nat} (hdata : s.data this = some d) :
    d ∈ s.allocated := by
  obtain ⟨holding, hlists, hperm⟩ := h.sound
  have hheld := List.mem_map_of_mem (f := Prod.snd) ((hlists.mem_iff this d).mp hdata)
  exact hperm.mem_iff.mpr (List.mem_append_left _ hheld)

theorem Inv.deallocated_mem (h : Inv s) {d : Nat × Nat} (hd : d ∈ s.deallocated) :
    d ∈ s.allocated := by
  obtain ⟨holding, -, hperm⟩ := h.sound
  exact hperm.mem_iff.mpr (List.mem_append_right _ (List.mem_append_left _ hd))

theorem Inv.distinct (h : Inv s) : s.allocated.Nodup := List.Nodup.of_map _ h.nodup

/-- No two buffers refer to one block, none refers to a freed one, the blocks are freed
    with their counts, and once there are no buffers all of them are freed, once. -/
structure FreesOnce (s : State H n) : Prop where
  unique : ∀ h k ptr size size', s.data h = some (ptr, size) → s.data k = some (ptr, size') → h = k
  live : ∀ h ptr size, s.data h = some (ptr, size) → ptr ∉ s.deallocated.map Prod.fst
  counts : ∀ d ∈ s.deallocated, d ∈ s.allocated
  long : ∀ h u, s.buffer h = some ⟨u, false⟩ → s.data h ≠ none
  settled : (∀ h, s.buffer h = none) →
    s.deallocated.Perm s.allocated ∧ (s.allocated.map Prod.fst).Nodup

theorem Inv.freesOnce (h : Inv s) : FreesOnce s where
  unique x y ptr size size' hx hy := by
    obtain rfl := h.same_count (h.data_mem hx) (h.data_mem hy)
    exact h.sound.unique h.distinct hx hy
  live x ptr size hx hfreed := by
    obtain ⟨⟨ptr', size'⟩, hmem, rfl⟩ := List.mem_map.mp hfreed
    obtain rfl := h.same_count (h.data_mem hx) (h.deallocated_mem hmem)
    obtain ⟨holding, hlists, hnodup⟩ := h.sound.nodup h.distinct
    have hheld := List.mem_map_of_mem (f := Prod.snd) ((hlists.mem_iff x _).mp hx)
    exact (List.nodup_append.mp hnodup).2.2 _ hheld _ (List.mem_append_left _ hmem) rfl
  counts d hd := h.deallocated_mem hd
  long x u hx hnone := by
    have hformed := h.formed x _ hx
    rw [State.data, hx] at hnone
    cases u with
    | stackBuffer chars => cases hformed
    | heapBuffer hb =>
        obtain ⟨ptr, hptr⟩ := hformed
        have hdata : hb.ptr.map (fun ptr => (ptr, hb.size)) = none := hnone
        rw [hptr] at hdata
        cases hdata
  settled hnone := by
    refine ⟨?_, h.nodup⟩
    obtain ⟨holding, hlists, hperm⟩ := h.sound
    have hempty : holding = [] := by
      refine List.eq_nil_iff_forall_not_mem.mpr ?_
      rintro ⟨x, d⟩ hmem
      have hdata : s.data x = some d := (hlists.mem_iff x d).mpr hmem
      rw [State.data, hnone x] at hdata
      cases hdata
    rw [hempty] at hperm
    exact ((List.append_nil s.deallocated) ▸ hperm).symm

/-! ## Operations on the books -/

theorem Buffer.Formed.mono {before after : List (Nat × Nat)} (h : b.Formed before)
    (hsub : ∀ d ∈ before, d ∈ after) : b.Formed after := by
  obtain ⟨u, short⟩ := b
  cases u with
  | stackBuffer chars => exact h
  | heapBuffer hb =>
      cases short with
      | false => exact h
      | true =>
          intro ptr hptr
          obtain ⟨d, hd, hfst⟩ := List.mem_map.mp (h ptr hptr)
          exact List.mem_map.mpr ⟨d, hsub d hd, hfst⟩

section Effects

variable [DecidableEq H]

theorem data_set (s : State H n) (this : H) (x : Option (Buffer n)) :
    (s.set this x).data = Function.update s.data this (x.bind Buffer.data) :=
  Function.comp_update (fun x : Option (Buffer n) => x.bind Buffer.data) _ _ _

/-- The other buffers keep their form. -/
theorem formed_set {x : Option (Buffer n)} (h : ∀ k b, s.buffer k = some b → b.Formed s.deallocated)
    (hx : ∀ b, x = some b → b.Formed s.deallocated) :
    ∀ k b, (s.set this x).buffer k = some b → b.Formed (s.set this x).deallocated := by
  intro k b hk
  by_cases hsame : k = this
  · subst hsame
    rw [buffer_set_self] at hk
    exact hx b hk
  · rw [buffer_set_other hsame] at hk
    exact h k b hk

/-- A buffer that refers to what it referred to before. -/
theorem Inv.set (h : Inv s) {x : Option (Buffer n)} (hdata : x.bind Buffer.data = s.data this)
    (hformed : ∀ b, x = some b → b.Formed s.deallocated) : Inv (s.set this x) := by
  have hsame : (s.set this x).data = s.data := by
    rw [data_set, hdata, Function.update_eq_self]
  refine ⟨?_, h.numbered, ?_, formed_set h.formed hformed⟩
  · show (⟨(s.set this x).data, s.allocated, s.deallocated, []⟩ : Ledger H _).Sound
    rw [hsame]
    exact h.sound
  · intro k p m hk
    rw [hsame] at hk
    exact h.live k p m hk

/-- A buffer gets a new block. -/
theorem Inv.adopt (h : Inv s) (hnone : s.data this = none) (chars : List UInt8)
    (capacity : Nat) : Inv ((s.grow chars).set this
      (some ⟨.heapBuffer ⟨capacity, some s.blocks.length, chars.length⟩, false⟩)) := by
  have hdata : ((s.grow chars).set this
      (some ⟨.heapBuffer ⟨capacity, some s.blocks.length, chars.length⟩, false⟩)).data
        = Function.update s.data this (some (s.blocks.length, chars.length)) := data_set ..
  refine ⟨?_, ?_, ?_, formed_set h.formed fun b hb => ?_⟩
  · show (⟨_, s.allocated ++ [(s.blocks.length, chars.length)], s.deallocated, []⟩ :
      Ledger H _).Sound
    rw [hdata]
    exact h.sound.adopt hnone _
  · show (s.allocated ++ [_]).map Prod.fst = List.range (s.blocks ++ [_]).length
    rw [List.map_append, h.numbered, List.length_append, List.length_singleton,
      List.range_succ]
    rfl
  · intro k p m hk
    rw [hdata] at hk
    show ∃ chars', (s.grow chars).block p = some chars' ∧ _
    by_cases hsame : k = this
    · subst hsame
      rw [Function.update_self] at hk
      cases hk
      exact ⟨chars, by rw [block_grow, if_pos rfl], rfl⟩
    · rw [Function.update_of_ne hsame] at hk
      obtain ⟨chars', hblock, hlength⟩ := h.live k p m hk
      refine ⟨chars', ?_, hlength⟩
      rw [block_grow, if_neg (Nat.ne_of_lt (lt_of_block hblock)), hblock]
  · cases hb
    exact ⟨_, rfl⟩

/-- A block is freed by the buffer that refers to it. -/
theorem Inv.free (h : Inv s) (hthis : s.data this = some (ptr, size)) {x : Option (Buffer n)}
    (hdata : x.bind Buffer.data = none)
    (hformed : ∀ b, x = some b → b.Formed (s.deallocated ++ [(ptr, size)])) :
    Inv ((s.free ptr size).set this x) := by
  have hdata : ((s.free ptr size).set this x).data = Function.update s.data this none := by
    rw [data_set, hdata]
    rfl
  have hmono : ∀ k b, (s.free ptr size).buffer k = some b →
      b.Formed (s.free ptr size).deallocated := fun k b hk =>
    (h.formed k b hk).mono fun _ hd => List.mem_append_left _ hd
  refine ⟨?_, ?_, ?_, formed_set hmono hformed⟩
  · have hfree := h.sound.free this
    rw [Ledger.free] at hfree
    show (⟨_, s.allocated, s.deallocated ++ [(ptr, size)], []⟩ : Ledger H _).Sound
    rw [hdata]
    rw [show (ledger s).held this = some (ptr, size) from hthis] at hfree
    exact hfree
  · show s.allocated.map Prod.fst = List.range (s.blocks.set ptr none).length
    rw [List.length_set, h.numbered]
  · intro k p m hk
    rw [hdata] at hk
    show ∃ chars', (s.free ptr size).block p = some chars' ∧ _
    by_cases hsame : k = this
    · rw [hsame, Function.update_self] at hk
      cases hk
    · rw [Function.update_of_ne hsame] at hk
      obtain ⟨chars', hblock, hlength⟩ := h.live k p m hk
      refine ⟨chars', ?_, hlength⟩
      have hne : p ≠ ptr := by
        rintro rfl
        exact hsame (h.freesOnce.unique k this _ _ _ hk hthis)
      rw [block_free, if_neg hne, hblock]

/-- Two buffers exchange everything. -/
theorem Inv.swap (h : Inv s) (hthis : s.buffer this = some t) (hother : s.buffer other = some o) :
    Inv ((s.set this (some o)).set other (some t)) := by
  have hdata : ((s.set this (some o)).set other (some t)).data
      = s.data ∘ Equiv.swap this other := by
    have hthis' : s.data this = t.data := by
      rw [State.data, hthis]
      rfl
    have hother' : s.data other = o.data := by
      rw [State.data, hother]
      rfl
    rw [data_set, data_set, Equiv.swap_comm, Equiv.comp_swap_eq_update, hthis', hother']
    rfl
  refine ⟨?_, h.numbered, ?_, ?_⟩
  · show (⟨_, s.allocated, s.deallocated, []⟩ : Ledger H _).Sound
    rw [hdata]
    exact h.sound.swap this other
  · intro k p m hk
    rw [hdata] at hk
    exact h.live _ p m hk
  · refine formed_set (formed_set h.formed ?_) ?_
    · rintro b hb
      cases hb
      exact h.formed other o hother
    · rintro b hb
      cases hb
      exact h.formed this t hthis

/-! ## Operations that meet the condition -/

/-- The condition: no long buffer is moved into a new one; a long buffer is destroyed with
    its size in `capacity`; a long buffer is assigned to a short one if there is memory,
    and to a long one if that is not smaller. -/
def Careful (s : State H n) (E : Environment n) : Op H → Prop
  | .moveConstruct _ other => s.data other = none
  | .destruct this => ∀ h, s.buffer this = some ⟨.heapBuffer h, false⟩ → h.capacity = h.size
  | .copyAssign this other => this ≠ other → ∀ ptr size, s.data other = some (ptr, size) →
      match s.data this with
      | none => E.allocator size ≠ none
      | some d => size ≤ d.2
  | _ => True

omit [DecidableEq H] in
/-- The two kinds of buffers. -/
theorem Inv.kinds (h : Inv s) (hthis : s.buffer this = some b) :
    (∃ u, b = ⟨u, true⟩ ∧ s.data this = none)
      ∨ ∃ capacity ptr chars, b = ⟨.heapBuffer ⟨capacity, some ptr, chars.length⟩, false⟩
        ∧ s.block ptr = some chars ∧ s.data this = some (ptr, chars.length) := by
  obtain ⟨u, short⟩ := b
  cases short with
  | true => exact .inl ⟨u, rfl, data_of_short hthis⟩
  | false =>
      have hformed := h.formed this _ hthis
      cases u with
      | stackBuffer chars => cases hformed
      | heapBuffer hb =>
          obtain ⟨capacity, ptr, size⟩ := hb
          obtain ⟨p, rfl⟩ : ∃ p, ptr = some p := hformed
          have hdata := data_of_long hthis
          obtain ⟨chars, hblock, rfl⟩ := h.live this p size hdata
          exact .inr ⟨capacity, p, chars, rfl, hblock, hdata⟩

omit [DecidableEq H] in
theorem data_of_none (h : s.buffer this = none) : s.data this = none := by
  rw [State.data, h]
  rfl

/-- A call that returns or throws, and keeps the invariant. -/
def Keeps (r : Outcome Exn Unit × State H n) : Prop := r.1 ≠ .undefined ∧ Inv r.2

omit [DecidableEq H] in
theorem keeps_ok {p : Prog (State H n) Exn Unit} (hrun : p s = (.ok (), s')) (h : Inv s') :
    Keeps (p s) := by
  rw [hrun]
  exact ⟨fun heq => (by cases heq), h⟩

omit [DecidableEq H] in
theorem keeps_threw {p : Prog (State H n) Exn Unit} (hrun : p s = (.threw .badAlloc, s'))
    (h : Inv s') : Keeps (p s) := by
  rw [hrun]
  exact ⟨fun heq => (by cases heq), h⟩

/-- A short buffer in the place of nothing or of a short buffer. -/
theorem Inv.set_short (h : Inv s) (hnone : s.data this = none) (v : Vector UInt8 n) :
    Inv (s.set this (some ⟨.stackBuffer v, true⟩)) := by
  refine h.set hnone.symm fun b hb => ?_
  cases hb
  rfl

theorem constructCapacity_keeps (h : Inv s) (hthis : s.buffer this = none) (capacity : UInt64) :
    Keeps (constructCapacity E this capacity s) := by
  have hnone := data_of_none hthis
  by_cases hshort : capacity.toNat < n - 1
  · exact keeps_ok (constructCapacity_short hthis hshort) (h.set_short hnone _)
  · cases hgrant : E.allocator (capacity + 1).toNat with
    | none => exact keeps_threw (constructCapacity_threw hshort hgrant) h
    | some grant =>
        obtain ⟨chars, -, hrun⟩ := constructCapacity_long hthis hshort hgrant
        exact keeps_ok hrun (h.adopt hnone chars _)

theorem copyConstruct_keeps (h : Inv s) (hthis : s.buffer this = none)
    (hother : s.buffer other = some o) : Keeps (copyConstruct E this other s) := by
  have hnone := data_of_none hthis
  rcases h.kinds hother with ⟨u, rfl, -⟩ | ⟨capacity, ptr, chars, rfl, hblock, -⟩
  · exact keeps_ok (copyConstruct_short hother hthis) (h.set_short hnone _)
  · cases hgrant : E.allocator chars.length with
    | none => exact keeps_threw (copyConstruct_threw hother hgrant) h
    | some grant =>
        obtain ⟨surplus, hrun⟩ := copyConstruct_long hother hblock hthis hgrant
        exact keeps_ok hrun (h.adopt hnone _ _)

theorem moveConstruct_keeps (h : Inv s) (hthis : s.buffer this = none)
    (hother : s.buffer other = some o) (hshort : s.data other = none) :
    Keeps (moveConstruct this other s) := by
  have hdata : o.data = none := by
    rw [State.data, hother] at hshort
    exact hshort
  refine keeps_ok (moveConstruct_ok hother hthis) (h.set ?_ fun b hb => ?_)
  · rw [data_of_none hthis]
    exact hdata
  · cases hb
    exact h.formed other o hother

theorem destruct_keeps (h : Inv s) (hthis : s.buffer this = some b)
    (hcapacity : ∀ hb, s.buffer this = some ⟨.heapBuffer hb, false⟩ → hb.capacity = hb.size) :
    Keeps (destruct E this s) := by
  rcases h.kinds hthis with ⟨u, rfl, hnone⟩ | ⟨capacity, ptr, chars, rfl, hblock, hdata⟩
  · exact keeps_ok (destruct_short hthis) (h.set hnone.symm fun _ hb => (by cases hb))
  · obtain rfl : capacity = chars.length := hcapacity _ hthis
    exact keeps_ok (destruct_long hthis hblock) (h.free hdata rfl fun _ hb => (by cases hb))

theorem copyAssign_keeps (h : Inv s) (hthis : s.buffer this = some t)
    (hother : s.buffer other = some o) (hcareful : Careful s E (.copyAssign this other)) :
    Keeps (copyAssign E this other s) := by
  by_cases hne : this = other
  · subst hne
    exact keeps_ok (copyAssign_self hthis) h
  · rcases h.kinds hthis with ⟨u, rfl, hnone⟩ | ⟨capacity, ptr, chars, rfl, hblock, hdata⟩
    · rcases h.kinds hother with ⟨v, rfl, hnone'⟩ | ⟨capacity', ptr', chars', rfl, hblock', hdata'⟩
      · exact keeps_ok (copyAssign_short_short hne hthis hother) (h.set_short hnone' _)
      · have hgranted := hcareful hne _ _ hdata'
        rw [hnone] at hgranted
        obtain ⟨grant, hgrant⟩ := Option.ne_none_iff_exists'.mp hgranted
        exact keeps_ok (copyAssign_short_long hne hthis hother hgrant) (h.adopt hnone _ _)
    · rcases h.kinds hother with ⟨v, rfl, hnone'⟩ | ⟨capacity', ptr', chars', rfl, hblock', hdata'⟩
      · refine keeps_ok (copyAssign_long_short hne hthis hblock hother) ?_
        -- the pointer stays in the union, behind the flag
        have hstale : ∀ b, some ⟨.heapBuffer ⟨capacity, some ptr, chars.length⟩, true⟩ = some b →
            Buffer.Formed (n := n) (s.deallocated ++ [(ptr, chars.length)]) b := by
          intro b hb
          cases hb
          intro p hp
          cases hp
          exact List.mem_map.mpr ⟨_, List.mem_append_right _ (List.mem_singleton_self _), rfl⟩
        refine (h.free hdata rfl hstale).set_short ?_ _
        rw [State.data, buffer_set_other (Ne.symm hne)]
        exact hnone'
      · have hroom := hcareful hne _ _ hdata'
        rw [hdata] at hroom
        exact keeps_ok (copyAssign_long_small hne hthis hother hroom) h

/-- **The step lemma.** -/
theorem exec_keeps (h : Inv s) {op : Op H} (hlegal : op.Legal s) (hcareful : Careful s E op) :
    Keeps (exec E op s) := by
  cases op with
  | construct this => exact keeps_ok (newBuffer_ok hlegal _) (h.set_short (data_of_none hlegal) _)
  | constructCapacity this capacity => exact constructCapacity_keeps h hlegal capacity
  | copyConstruct this other =>
      obtain ⟨o, hother⟩ := Option.ne_none_iff_exists'.mp hlegal.2
      exact copyConstruct_keeps h hlegal.1 hother
  | moveConstruct this other =>
      obtain ⟨o, hother⟩ := Option.ne_none_iff_exists'.mp hlegal.2
      exact moveConstruct_keeps h hlegal.1 hother hcareful
  | copyAssign this other =>
      obtain ⟨t, hthis⟩ := Option.ne_none_iff_exists'.mp hlegal.1
      obtain ⟨o, hother⟩ := Option.ne_none_iff_exists'.mp hlegal.2
      exact copyAssign_keeps h hthis hother hcareful
  | moveAssign this other =>
      obtain ⟨t, hthis⟩ := Option.ne_none_iff_exists'.mp hlegal.1
      obtain ⟨o, hother⟩ := Option.ne_none_iff_exists'.mp hlegal.2
      exact keeps_ok (moveAssign_ok hthis hother) (h.swap hthis hother)
  | destruct this =>
      obtain ⟨b, hthis⟩ := Option.ne_none_iff_exists'.mp hlegal
      exact destruct_keeps h hthis hcareful

/-! ## Operations that do not -/

omit [DecidableEq H] in
/-- A long buffer whose block is freed. -/
theorem FreesOnce.not_freed {capacity : Nat} (h : FreesOnce s')
    (hbuffer : s'.buffer this = some ⟨.heapBuffer ⟨capacity, some ptr, size⟩, false⟩) :
    ptr ∉ s'.deallocated.map Prod.fst := h.live this ptr size (data_of_long hbuffer)

omit [DecidableEq H] in
theorem mem_free (s : State H n) (ptr count : Nat) :
    ptr ∈ (s.free ptr count).deallocated.map Prod.fst :=
  List.mem_map.mpr ⟨_, List.mem_append_right _ (List.mem_singleton_self _), rfl⟩

/-- Two owners. -/
theorem moveConstruct_spoils (hthis : s.buffer this = none) (hother : s.buffer other = some o)
    (hlong : s.data other ≠ none) : ¬ FreesOnce (moveConstruct this other s).2 := by
  rw [moveConstruct_ok hother hthis]
  intro h
  obtain ⟨⟨ptr, size⟩, hdata⟩ := Option.ne_none_iff_exists'.mp hlong
  have hne : other ≠ this := by
    rintro rfl
    rw [hthis] at hother
    cases hother
  have hnew : (s.set this (some o)).data this = some (ptr, size) := by
    rw [State.data, buffer_set_self, ← hother]
    exact hdata
  have hold : (s.set this (some o)).data other = some (ptr, size) := by
    rw [State.data, buffer_set_other hne]
    exact hdata
  exact hne (h.unique other this ptr size size hold hnew)

/-- A wrong count. -/
theorem destruct_spoils (h : Inv s) {hb : HeapBuffer}
    (hthis : s.buffer this = some ⟨.heapBuffer hb, false⟩) (hcapacity : hb.capacity ≠ hb.size) :
    ¬ FreesOnce (destruct E this s).2 := by
  rcases h.kinds hthis with ⟨u, heq, -⟩ | ⟨capacity, ptr, chars, heq, hblock, hdata⟩
  · cases heq
  · cases heq
    rw [destruct_long hthis hblock]
    intro hfrees
    have hmem : (ptr, capacity) ∈ s.allocated :=
      hfrees.counts _ (List.mem_append_right _ (List.mem_singleton_self _))
    exact hcapacity (h.same_count hmem (h.data_mem hdata))

/-- No block for a long buffer, or one that is freed. -/
theorem copyAssign_spoils (h : Inv s) (hthis : s.buffer this = some t)
    (hother : s.buffer other = some o) (hnot : ¬ Careful s E (.copyAssign this other)) :
    (copyAssign E this other s).1 = .undefined ∨ ¬ FreesOnce (copyAssign E this other s).2 := by
  have hne : this ≠ other := fun heq => hnot fun hne => absurd heq hne
  rcases h.kinds hother with ⟨v, rfl, hnone'⟩ | ⟨capacity', ptr', chars', rfl, hblock', hdata'⟩
  · refine absurd (fun _ p m hp => ?_) hnot
    rw [hnone'] at hp
    cases hp
  · rcases h.kinds hthis with ⟨u, rfl, hnone⟩ | ⟨capacity, ptr, chars, rfl, hblock, hdata⟩
    · cases hgrant : E.allocator chars'.length with
      | some grant =>
          refine absurd (fun _ p m hp => ?_) hnot
          cases hdata'.symm.trans hp
          rw [hnone, hgrant]
          exact Option.some_ne_none _
      | none =>
          -- the flag is set, and the union is as it was
          right
          rw [copyAssign_short_threw hne hthis hother hgrant]
          intro hfrees
          have hflag := buffer_set_self s this (some ⟨u, false⟩)
          cases u with
          | stackBuffer v =>
              refine hfrees.long this _ hflag ?_
              rw [State.data, hflag]
              rfl
          | heapBuffer hb =>
              obtain ⟨capacity, ptr, size⟩ := hb
              cases ptr with
              | none =>
                  refine hfrees.long this _ hflag ?_
                  rw [State.data, hflag]
                  rfl
              | some p => exact hfrees.not_freed hflag (h.formed this _ hthis p rfl)
    · by_cases hroom : chars'.length ≤ chars.length
      · refine absurd (fun _ p m hp => ?_) hnot
        cases hdata'.symm.trans hp
        rw [hdata]
        exact hroom
      · have hlarge := Nat.lt_of_not_le hroom
        have hptr : ptr' ≠ ptr := by
          rintro rfl
          cases hblock.symm.trans hblock'
          exact Nat.lt_irrefl _ hlarge
        cases hgrant : E.allocator chars'.length with
        | none =>
            right
            rw [copyAssign_long_threw hne hthis hblock hother hlarge hgrant]
            exact fun hfrees => hfrees.not_freed hthis (mem_free s ptr _)
        | some grant =>
            rw [copyAssign_long_large hne hthis hblock hother hblock' hptr hlarge hgrant]
            by_cases hzero : chars.length = 0
            · right
              exact fun hfrees => hfrees.not_freed hthis (mem_free s ptr _)
            · left
              exact if_neg hzero

/-- An operation that does not meet its condition is undefined, or spoils the books. -/
theorem exec_spoils (h : Inv s) {op : Op H} (hlegal : op.Legal s) (hnot : ¬ Careful s E op) :
    (exec E op s).1 = .undefined ∨ ¬ FreesOnce (exec E op s).2 := by
  cases op with
  | construct this => exact absurd trivial hnot
  | constructCapacity this capacity => exact absurd trivial hnot
  | copyConstruct this other => exact absurd trivial hnot
  | moveAssign this other => exact absurd trivial hnot
  | moveConstruct this other =>
      obtain ⟨o, hother⟩ := Option.ne_none_iff_exists'.mp hlegal.2
      exact .inr (moveConstruct_spoils hlegal.1 hother hnot)
  | copyAssign this other =>
      obtain ⟨t, hthis⟩ := Option.ne_none_iff_exists'.mp hlegal.1
      obtain ⟨o, hother⟩ := Option.ne_none_iff_exists'.mp hlegal.2
      exact copyAssign_spoils h hthis hother hnot
  | destruct this =>
      obtain ⟨hb, hrest⟩ := not_forall.mp hnot
      obtain ⟨hthis, hcapacity⟩ := Classical.not_imp.mp hrest
      exact .inr (destruct_spoils h hthis hcapacity)

/-! ## Runs -/

/-- The condition on an event. -/
def CarefulEvent (s : State H n) (a : Event H n) : Prop := Careful s a.environment a.op

theorem run_inv {tr : List (Event H n)} (h : Run ((buffers H n).restrict CarefulEvent) tr s) :
    Inv s := by
  refine Run.invariant (I := fun _ s => Inv s) ?_ ?_ h
  · rintro s rfl
    exact inv_start
  · rintro tr s a s' - hinv ⟨⟨hlegal, hrun, -⟩, hcareful⟩
    have hkeeps := (exec_keeps hinv hlegal hcareful).2
    rw [hrun] at hkeeps
    exact hkeeps

/-- **Every block is freed exactly once**, with its count, in the runs whose operations
    meet the condition.  The next operation returns or throws and leaves the blocks in
    order if and only if it meets it as well. -/
theorem runs_free_once {tr : List (Event H n)}
    (h : Run ((buffers H n).restrict CarefulEvent) tr s) :
    FreesOnce s ∧ ∀ E op, Op.Legal s op →
      ((exec E op s).1 ≠ .undefined ∧ FreesOnce (exec E op s).2 ↔ Careful s E op) := by
  have hinv := run_inv h
  refine ⟨hinv.freesOnce, fun E op hlegal => ⟨?_, ?_⟩⟩
  · rintro ⟨hdefined, hfrees⟩
    refine Classical.byContradiction fun hnot => ?_
    rcases exec_spoils hinv hlegal hnot with hundefined | hspoils
    · exact hdefined hundefined
    · exact hspoils hfrees
  · intro hcareful
    obtain ⟨hdefined, hkeeps⟩ := exec_keeps hinv hlegal hcareful
    exact ⟨hdefined, hkeeps.freesOnce⟩

end Effects

/-! ## Runs on two buffers -/

/-- An allocator that gives what it is asked for; the bytes of a new union are zero. -/
def exactly : Environment 24 where
  allocator count := some ⟨List.replicate count 0, Nat.le_of_eq List.length_replicate.symm⟩
  stackBuffer := Vector.replicate 24 0
  heapBuffer := ⟨0, none, 0⟩

/-- The events of operations that return. -/
def returning (ops : List (Op Bool)) : List (Event Bool 24) :=
  ops.map fun op => ⟨op, exactly, .ok ()⟩

/-- The state after these operations. -/
def after (ops : List (Op Bool)) : State Bool 24 :=
  ops.foldl (fun s op => (exec exactly op s).2) ⟨fun _ => none, [], [], []⟩

theorem after_concat (ops : List (Op Bool)) (op : Op Bool) :
    after (ops ++ [op]) = (exec exactly op (after ops)).2 := by
  rw [after, List.foldl_append]
  rfl

theorem step_after {ops : List (Op Bool)} {op : Op Bool} (hlegal : op.Legal (after ops))
    (hok : (exec exactly op (after ops)).1 = .ok ()) :
    (buffers Bool 24).step (after ops) ⟨op, exactly, .ok ()⟩ (after (ops ++ [op])) := by
  rw [after_concat]
  exact ⟨hlegal, Prod.ext hok rfl, fun h => by cases h⟩

theorem run_after {ops : List (Op Bool)} (op : Op Bool)
    (h : Run ((buffers Bool 24).restrict CarefulEvent) (returning ops) (after ops))
    (hlegal : op.Legal (after ops)) (hok : (exec exactly op (after ops)).1 = .ok ())
    (hcareful : Careful (after ops) exactly op) :
    Run ((buffers Bool 24).restrict CarefulEvent) (returning (ops ++ [op]))
      (after (ops ++ [op])) := by
  rw [returning, List.map_append]
  exact .snoc h ⟨step_after hlegal hok, hcareful⟩

/-- A long buffer `a` and a short one `b` are exchanged; then `b = a` frees the block, with
    its count, and both are destroyed. -/
def exchanged : List (Op Bool) :=
  [.constructCapacity true 30, .construct false, .moveAssign false true,
    .copyAssign false true, .destruct true, .destruct false]

theorem exchanged_frees_once :
    FreesOnce (after exchanged) ∧ (after exchanged).allocated = [(0, 31)]
      ∧ (after exchanged).deallocated = [(0, 31)] ∧ ∀ x, (after exchanged).buffer x = none := by
  have hstart : Run ((buffers Bool 24).restrict CarefulEvent) (returning []) (after []) :=
    .start rfl
  have hboth := run_after (.moveAssign false true) (run_after (.construct false)
      (run_after (.constructCapacity true 30) hstart rfl rfl trivial) rfl rfl trivial)
    ⟨Option.some_ne_none _, Option.some_ne_none _⟩ rfl trivial
  have hassigned := run_after (.copyAssign false true) hboth
    ⟨Option.some_ne_none _, Option.some_ne_none _⟩ rfl fun _ ptr size hdata => by cases hdata
  have hfirst := run_after (.destruct true) hassigned (Option.some_ne_none _) rfl
    fun h hthis => by cases hthis
  have hrun := run_after (.destruct false) hfirst (Option.some_ne_none _) rfl
    fun h hthis => by cases hthis
  exact ⟨(runs_free_once hrun).1, rfl, rfl, fun x => by cases x <;> rfl⟩

/-- `CharStringBuffer a(30);` frees 0 characters of the 31 that it has allocated, and
    `CharStringBuffer b(std::move(a));` makes two owners of them. -/
theorem long_buffers_not_freed_once :
    (Run (buffers Bool 24) (returning [.constructCapacity true 30, .destruct true])
        (after [.constructCapacity true 30, .destruct true])
      ∧ (after [.constructCapacity true 30, .destruct true]).allocated = [(0, 31)]
      ∧ (after [.constructCapacity true 30, .destruct true]).deallocated = [(0, 0)]
      ∧ ¬ FreesOnce (after [.constructCapacity true 30, .destruct true]))
    ∧ Run (buffers Bool 24) (returning [.constructCapacity true 30, .moveConstruct false true])
        (after [.constructCapacity true 30, .moveConstruct false true])
      ∧ ¬ FreesOnce (after [.constructCapacity true 30, .moveConstruct false true]) := by
  have hlong : Run (buffers Bool 24) (returning [.constructCapacity true 30])
      (after [.constructCapacity true 30]) :=
    .snoc (.start rfl) (@step_after [] (.constructCapacity true 30) rfl rfl)
  refine ⟨⟨.snoc hlong (@step_after [_] (.destruct true) (Option.some_ne_none _) rfl), rfl,
    rfl, fun h => ?_⟩, .snoc hlong (@step_after [_] (.moveConstruct false true)
      ⟨rfl, Option.some_ne_none _⟩ rfl), fun h => ?_⟩
  · have hallocated : (0, 0) ∈ [(0, 31)] := h.counts (0, 0) (List.mem_singleton_self _)
    exact absurd hallocated (by decide)
  · exact absurd (h.unique true false 0 31 31 rfl rfl) (by decide)

end CharStringBuffer
