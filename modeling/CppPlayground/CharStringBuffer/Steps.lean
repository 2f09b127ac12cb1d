import Mathlib.Data.List.Basic
import CppPlayground.CharStringBuffer.Model

/-! # `CharStringBuffer`: what each member does

    Statement by statement, and from that the members on buffers that exist. -/

namespace CharStringBuffer

open Program Transition

variable {H : Type} {n : Nat}

/-! ## Changes of the state -/

/-- The state after an allocation has got a block with these characters. -/
def State.grow (s : State H n) (chars : List UInt8) : State H n :=
  { s with
    blocks := s.blocks ++ [some chars]
    allocated := s.allocated ++ [(s.blocks.length, chars.length)] }

/-- The state after a block has been freed, with this count. -/
def State.free (s : State H n) (ptr count : Nat) : State H n :=
  { s with
    blocks := s.blocks.set ptr none
    deallocated := s.deallocated ++ [(ptr, count)] }

/-- The state after a block has got other characters. -/
def State.write (s : State H n) (ptr : Nat) (chars : List UInt8) : State H n :=
  { s with blocks := s.blocks.set ptr (some chars) }

/-- The pointer and the size of a long buffer. -/
def Buffer.data : Buffer n → Option (Nat × Nat)
  | ⟨.heapBuffer h, false⟩ => h.ptr.map fun ptr => (ptr, h.size)
  | _ => none

/-- What the buffers refer to. -/
def State.data (s : State H n) (this : H) : Option (Nat × Nat) :=
  (s.buffer this).bind Buffer.data

variable {s s' : State H n} {E : Environment n} {ptr count : Nat} {chars : List UInt8}

theorem data_of_short {this : H} {u : Union n} (h : s.buffer this = some ⟨u, true⟩) :
    s.data this = none := by
  rw [State.data, h]
  cases u <;> rfl

theorem data_of_long {this : H} {capacity size : Nat}
    (h : s.buffer this = some ⟨.heapBuffer ⟨capacity, some ptr, size⟩, false⟩) :
    s.data this = some (ptr, size) := by
  rw [State.data, h]
  rfl

theorem lt_of_block (h : s.block ptr = some chars) : ptr < s.blocks.length := by
  refine Nat.lt_of_not_le fun hle => ?_
  rw [State.block, List.getElem?_eq_none hle] at h
  cases h

theorem block_grow (s : State H n) (chars : List UInt8) (ptr : Nat) :
    (s.grow chars).block ptr = if ptr = s.blocks.length then some chars else s.block ptr := by
  show ((s.blocks ++ [some chars])[ptr]?).join = _
  by_cases hlast : ptr = s.blocks.length
  · rw [if_pos hlast, hlast, List.getElem?_concat_length]
    rfl
  · rw [if_neg hlast]
    by_cases hlt : ptr < s.blocks.length
    · rw [List.getElem?_append_left hlt]
      rfl
    · rw [List.getElem?_eq_none (by rw [List.length_append, List.length_singleton]; omega),
        State.block, List.getElem?_eq_none (by omega)]

theorem block_free (s : State H n) (ptr count other : Nat) :
    (s.free ptr count).block other = if other = ptr then none else s.block other := by
  show ((s.blocks.set ptr none)[other]?).join = _
  rw [List.getElem?_set]
  by_cases hother : other = ptr
  · subst hother
    rw [if_pos rfl, if_pos rfl]
    split <;> rfl
  · rw [if_neg fun h => hother h.symm, if_neg hother]
    rfl

/-! ## Memory -/

theorem allocateAtLeast_some {grant : Grant count} (h : E.allocator count = some grant) :
    allocateAtLeast E count s
      = (.ok (s.blocks.length, grant.chars.length), s.grow grant.chars) := by
  rw [allocateAtLeast, h]
  rfl

theorem allocateAtLeast_none (h : E.allocator count = none) :
    allocateAtLeast E count s = (.threw .badAlloc, s) := by
  rw [allocateAtLeast, h]

theorem deallocate_ok (h : s.block ptr = some chars) (count : Nat) :
    deallocate ptr count s = (.ok (), s.free ptr count) := by
  refine change_of_some ?_
  rw [h]
  rfl

theorem readChars_ok (h : s.block ptr = some chars) (hcount : count ≤ chars.length) :
    readChars (some ptr) count s = (.ok (chars.take count), s) := by
  rw [readChars]
  by_cases hzero : count = 0
  · rw [if_pos hzero, hzero]
    rfl
  · rw [if_neg hzero]
    refine access_ok_iff.mpr ⟨?_, rfl⟩
    show (s.block ptr).bind (fun chars => if count ≤ chars.length then _ else _) = _
    rw [h, Option.bind_some, if_pos hcount]

theorem writeChars_nil (ptr : Option Nat) (start : Nat) :
    writeChars ptr start [] s = (.ok (), s) := rfl

theorem overwrite_nil (chars : List UInt8) (start : Nat) : overwrite chars start [] = chars := by
  rw [overwrite, List.append_nil, List.length_nil, Nat.add_zero, List.take_append_drop]

theorem writeChars_ok (h : s.block ptr = some chars) {start : Nat} {new : List UInt8}
    (hfits : start + new.length ≤ chars.length) :
    writeChars (some ptr) start new s = (.ok (), s.write ptr (overwrite chars start new)) := by
  rw [writeChars]
  by_cases hnil : new = []
  · subst hnil
    -- nothing is written, and so the block stays
    have hget : s.blocks[ptr]? = some (some chars) := Option.join_eq_some_iff.mp h
    have hset : s.blocks.set ptr (some chars) = s.blocks := by
      obtain ⟨hlt, heq⟩ := List.getElem?_eq_some_iff.mp hget
      rw [← heq, List.set_getElem_self]
    rw [if_pos rfl, overwrite_nil, State.write, hset]
    rfl
  · rw [if_neg hnil]
    refine change_of_some ?_
    show (s.block ptr).bind (fun chars => if start + new.length ≤ chars.length then _ else _) = _
    rw [h, Option.bind_some, if_pos hfits]
    rfl

/-- Nothing can be written behind a pointer to a freed block. -/
theorem writeChars_freed (h : s.block ptr = none) (start : Nat) {new : List UInt8}
    (hnew : new ≠ []) : writeChars (some ptr) start new s = (.undefined, s) := by
  rw [writeChars, if_neg hnew]
  refine change_of_none ?_
  show (s.block ptr).bind _ = none
  rw [h, Option.bind_none]

/-! ## Characters -/

theorem length_overwrite {start : Nat} {new : List UInt8}
    (hfits : start + new.length ≤ chars.length) :
    (overwrite chars start new).length = chars.length := by
  rw [overwrite, List.length_append, List.length_append, List.length_take, List.length_drop]
  omega

theorem overwrite_zero (chars new : List UInt8) :
    overwrite chars 0 new = new ++ chars.drop new.length := by
  rw [overwrite, List.take_zero, List.nil_append, Nat.zero_add]

/-- The rest of a block, written over. -/
theorem overwrite_rest {new rest zeros : List UInt8} (hlength : zeros.length = rest.length) :
    overwrite (new ++ rest) new.length zeros = new ++ zeros := by
  rw [overwrite, List.take_left, hlength, ← List.length_append, List.drop_length,
    List.append_nil]

/-- A new block with other characters. -/
theorem grow_write {new : List UInt8} (hlength : new.length = chars.length) :
    (s.grow chars).write s.blocks.length new = s.grow new := by
  rw [State.write, State.grow, State.grow, hlength]
  congr 1
  show (s.blocks ++ [some chars]).set s.blocks.length (some new) = _
  rw [List.set_append_right _ _ (Nat.le_refl _), Nat.sub_self]
  rfl

/-! ## Fields -/

section Members

variable [DecidableEq H] {this other : H} {b t o : Buffer n}

theorem set_set (s : State H n) (this : H) (x y : Option (Buffer n)) :
    (s.set this x).set this y = s.set this y := by
  rw [State.set, State.set, State.set, Function.update_idem]

theorem set_eq_self {x : Option (Buffer n)} (h : s.buffer this = x) : s.set this x = s := by
  rw [State.set, ← h, Function.update_eq_self]

theorem buffer_set_self (s : State H n) (this : H) (x : Option (Buffer n)) :
    (s.set this x).buffer this = x := Function.update_self ..

theorem buffer_set_other (hne : other ≠ this) (s : State H n) (x : Option (Buffer n)) :
    (s.set this x).buffer other = s.buffer other := Function.update_of_ne hne ..

omit [DecidableEq H] in
theorem fields_ok (h : s.buffer this = some b) : fields this s = (.ok b, s) :=
  access_ok_iff.mpr ⟨h, rfl⟩

theorem newBuffer_ok (h : s.buffer this = none) (b : Buffer n) :
    newBuffer this b s = (.ok (), s.set this (some b)) := by
  refine change_of_some ?_
  rw [h]
  rfl

theorem setShortString_ok (h : s.buffer this = some b) (value : Bool) :
    setShortString this value s = (.ok (), s.set this (some ⟨b.mBuffer, value⟩)) := by
  rw [setShortString, bind_of_ok (fields_ok h)]
  rfl

theorem setData_ok (h : s.buffer this = some b) (data : Nat × Nat) :
    setData E this data s
      = (.ok (), s.set this (some ⟨b.mBuffer.setData E data, b.mIsShortString⟩)) := by
  rw [setData, bind_of_ok (fields_ok h)]
  rfl

theorem copyToItself_ok (h : s.buffer other = some b) :
    copyToItself E other s
      = (.ok (), s.set other (some ⟨.stackBuffer (b.mBuffer.stack E), b.mIsShortString⟩)) := by
  rw [copyToItself, bind_of_ok (fields_ok h)]
  rfl

/-! ## Constructors -/

/-- The buffer with a block that has just been allocated. -/
def newLong (E : Environment n) (s : State H n) (size : Nat) : Buffer n :=
  ⟨.heapBuffer ⟨E.heapBuffer.capacity, some s.blocks.length, size⟩, false⟩

theorem constructCapacity_short {capacity : UInt64} (hthis : s.buffer this = none)
    (hshort : capacity.toNat < n - 1) :
    constructCapacity E this capacity s = (.ok (), s.set this (some ⟨zeros n, true⟩)) := by
  rw [constructCapacity, if_pos hshort]
  exact newBuffer_ok hthis _

theorem constructCapacity_threw {capacity : UInt64} (hlong : ¬ capacity.toNat < n - 1)
    (hgrant : E.allocator (capacity + 1).toNat = none) :
    constructCapacity E this capacity s = (.threw .badAlloc, s) := by
  rw [constructCapacity, if_neg hlong]
  exact bind_of_threw (allocateAtLeast_none hgrant)

theorem constructCapacity_long {capacity : UInt64} (hthis : s.buffer this = none)
    (hlong : ¬ capacity.toNat < n - 1) {grant : Grant (capacity + 1).toNat}
    (hgrant : E.allocator (capacity + 1).toNat = some grant) :
    ∃ chars, chars.length = grant.chars.length
      ∧ constructCapacity E this capacity s
        = (.ok (), (s.grow chars).set this (some (newLong E s chars.length))) := by
  have hblock : (s.grow grant.chars).block s.blocks.length = some grant.chars := by
    rw [block_grow, if_pos rfl]
  have hfits : 0 + (List.replicate (capacity + 1).toNat (0 : UInt8)).length
      ≤ grant.chars.length := by
    rw [List.length_replicate, Nat.zero_add]
    exact grant.enough
  have hlength := length_overwrite hfits
  refine ⟨_, hlength, ?_⟩
  rw [constructCapacity, if_neg hlong, bind_of_ok (allocateAtLeast_some hgrant),
    bind_of_ok (writeChars_ok hblock hfits), grow_write hlength, hlength]
  exact newBuffer_ok (s := s.grow _) hthis _

theorem copyConstruct_short {u : Union n} (hother : s.buffer other = some ⟨u, true⟩)
    (hthis : s.buffer this = none) :
    copyConstruct E this other s
      = (.ok (), s.set this (some ⟨.stackBuffer (u.stack E), true⟩)) := by
  rw [copyConstruct, bind_of_ok (fields_ok hother)]
  exact newBuffer_ok hthis _

theorem copyConstruct_threw {h : HeapBuffer}
    (hother : s.buffer other = some ⟨.heapBuffer h, false⟩)
    (hgrant : E.allocator h.size = none) :
    copyConstruct E this other s = (.threw .badAlloc, s) := by
  rw [copyConstruct, bind_of_ok (fields_ok hother)]
  exact bind_of_threw (allocateAtLeast_none hgrant)

/-- The new block gets the characters, and zeros behind them. -/
theorem copyConstruct_long {capacity : Nat}
    (hother : s.buffer other = some ⟨.heapBuffer ⟨capacity, some ptr, chars.length⟩, false⟩)
    (hblock : s.block ptr = some chars) (hthis : s.buffer this = none)
    {grant : Grant chars.length} (hgrant : E.allocator chars.length = some grant) :
    ∃ surplus, copyConstruct E this other s
      = (.ok (), (s.grow (chars ++ List.replicate surplus 0)).set this
        (some (newLong E s (chars ++ List.replicate surplus 0).length))) := by
  obtain ⟨block, henough⟩ := grant
  have hmin : min block.length chars.length = chars.length := Nat.min_eq_right henough
  have hnew : (s.grow block).block s.blocks.length = some block := by
    rw [block_grow, if_pos rfl]
  have hold : (s.grow block).block ptr = some chars := by
    rw [block_grow, if_neg (Nat.ne_of_lt (lt_of_block hblock)), hblock]
  have hread : readChars (some ptr) (min block.length chars.length) (s.grow block)
      = (.ok chars, s.grow block) := by
    rw [hmin, readChars_ok hold (Nat.le_refl _), List.take_length]
  -- the characters are written, and then the zeros behind them
  have hfits : 0 + chars.length ≤ block.length := by omega
  have hlength := length_overwrite hfits
  have hcopied : (s.grow (overwrite block 0 chars)).block s.blocks.length
      = some (overwrite block 0 chars) := by
    rw [block_grow, if_pos rfl]
  have hwrite : writeChars (some s.blocks.length) 0 chars (s.grow block)
      = (.ok (), s.grow (overwrite block 0 chars)) := by
    rw [writeChars_ok hnew hfits, grow_write hlength]
  have hfill : writeChars (some s.blocks.length) (min block.length chars.length)
      (List.replicate (block.length - min block.length chars.length) 0)
      (s.grow (overwrite block 0 chars))
        = (.ok (), s.grow (chars ++ List.replicate (block.length - chars.length) 0)) := by
    have hzeros : (List.replicate (block.length - chars.length) (0 : UInt8)).length
        = (block.drop chars.length).length := by
      rw [List.length_replicate, List.length_drop]
    have hrest : chars.length + (List.replicate (block.length - chars.length) (0 : UInt8)).length
        ≤ (overwrite block 0 chars).length := by
      rw [List.length_replicate, hlength]
      omega
    rw [hmin, writeChars_ok hcopied hrest, grow_write (length_overwrite hrest), overwrite_zero,
      overwrite_rest hzeros]
  refine ⟨block.length - chars.length, ?_⟩
  rw [copyConstruct, bind_of_ok (fields_ok hother)]
  refine (bind_of_ok (allocateAtLeast_some hgrant)).trans ?_
  refine (bind_of_ok hread).trans ?_
  refine (bind_of_ok hwrite).trans ?_
  refine (bind_of_ok hfill).trans ?_
  rw [List.length_append, List.length_replicate, Nat.add_sub_cancel' henough]
  exact newBuffer_ok (s := s.grow _) hthis _

theorem moveConstruct_ok (hother : s.buffer other = some o) (hthis : s.buffer this = none) :
    moveConstruct this other s = (.ok (), s.set this (some o)) := by
  rw [moveConstruct, bind_of_ok (fields_ok hother)]
  exact newBuffer_ok hthis o

/-! ## The destructor -/

theorem destruct_short {u : Union n} (hthis : s.buffer this = some ⟨u, true⟩) :
    destruct E this s = (.ok (), s.set this none) := by
  rw [destruct, bind_of_ok (fields_ok hthis)]
  rfl

/-- The count is that of the member `capacity`. -/
theorem destruct_long {capacity size : Nat}
    (hthis : s.buffer this = some ⟨.heapBuffer ⟨capacity, some ptr, size⟩, false⟩)
    (hblock : s.block ptr = some chars) :
    destruct E this s = (.ok (), (s.free ptr capacity).set this none) := by
  rw [destruct, bind_of_ok (fields_ok hthis)]
  exact bind_of_ok (deallocate_ok hblock capacity)

/-! ## Assignments -/

theorem copyAssign_self (hthis : s.buffer this = some t) :
    copyAssign E this this s = (.ok (), s) := by
  rw [copyAssign, bind_of_ok (fields_ok hthis), bind_of_ok (fields_ok hthis), if_pos rfl]
  rfl

section Others

variable (hne : this ≠ other)
include hne

/-- Nothing is copied to this buffer. -/
theorem copyAssign_short_short {u v : Union n} (hthis : s.buffer this = some ⟨u, true⟩)
    (hother : s.buffer other = some ⟨v, true⟩) :
    copyAssign E this other s
      = (.ok (), s.set other (some ⟨.stackBuffer (v.stack E), true⟩)) := by
  rw [copyAssign, bind_of_ok (fields_ok hthis), bind_of_ok (fields_ok hother), if_neg hne]
  exact copyToItself_ok hother

/-- The flag is set before the allocation. -/
theorem copyAssign_short_threw {u : Union n} {k : HeapBuffer}
    (hthis : s.buffer this = some ⟨u, true⟩)
    (hother : s.buffer other = some ⟨.heapBuffer k, false⟩) (hgrant : E.allocator k.size = none) :
    copyAssign E this other s = (.threw .badAlloc, s.set this (some ⟨u, false⟩)) := by
  rw [copyAssign, bind_of_ok (fields_ok hthis), bind_of_ok (fields_ok hother), if_neg hne]
  refine (bind_of_ok (setShortString_ok hthis false)).trans ?_
  exact bind_of_threw (allocateAtLeast_none hgrant)

/-- The new block keeps what was there before. -/
theorem copyAssign_short_long {u : Union n} {k : HeapBuffer}
    (hthis : s.buffer this = some ⟨u, true⟩)
    (hother : s.buffer other = some ⟨.heapBuffer k, false⟩) {grant : Grant k.size}
    (hgrant : E.allocator k.size = some grant) :
    copyAssign E this other s = (.ok (), (s.grow grant.chars).set this
      (some ⟨.heapBuffer ⟨(u.heap E).capacity, some s.blocks.length, grant.chars.length⟩,
        false⟩)) := by
  rw [copyAssign, bind_of_ok (fields_ok hthis), bind_of_ok (fields_ok hother), if_neg hne]
  refine (bind_of_ok (setShortString_ok hthis false)).trans ?_
  refine (bind_of_ok (allocateAtLeast_some hgrant)).trans ?_
  have hflag := buffer_set_self (s.grow grant.chars) this (some ⟨u, false⟩)
  refine (setData_ok hflag _).trans ?_
  rw [set_set]
  rfl

/-- The characters of the short buffer are copied onto themselves. -/
theorem copyAssign_long_short {capacity size : Nat} {v : Union n}
    (hthis : s.buffer this = some ⟨.heapBuffer ⟨capacity, some ptr, size⟩, false⟩)
    (hblock : s.block ptr = some chars) (hother : s.buffer other = some ⟨v, true⟩) :
    copyAssign E this other s = (.ok (), ((s.free ptr size).set this
      (some ⟨.heapBuffer ⟨capacity, some ptr, size⟩, true⟩)).set other
        (some ⟨.stackBuffer (v.stack E), true⟩)) := by
  rw [copyAssign, bind_of_ok (fields_ok hthis), bind_of_ok (fields_ok hother), if_neg hne]
  refine (bind_of_ok (deallocate_ok hblock size)).trans ?_
  refine (bind_of_ok (setShortString_ok (s := s.free ptr size) hthis true)).trans ?_
  have hkept : ((s.free ptr size).set this
      (some ⟨.heapBuffer ⟨capacity, some ptr, size⟩, true⟩)).buffer other = some ⟨v, true⟩ := by
    rw [buffer_set_other (Ne.symm hne)]
    exact hother
  exact copyToItself_ok hkept

/-- Nothing is done if there is room. -/
theorem copyAssign_long_small {h k : HeapBuffer}
    (hthis : s.buffer this = some ⟨.heapBuffer h, false⟩)
    (hother : s.buffer other = some ⟨.heapBuffer k, false⟩) (hroom : k.size ≤ h.size) :
    copyAssign E this other s = (.ok (), s) := by
  rw [copyAssign, bind_of_ok (fields_ok hthis), bind_of_ok (fields_ok hother), if_neg hne]
  exact congrFun (if_neg (Nat.not_lt.mpr hroom)) s

/-- The block is freed, and there is no other one afterwards. -/
theorem copyAssign_long_threw {capacity size : Nat} {k : HeapBuffer}
    (hthis : s.buffer this = some ⟨.heapBuffer ⟨capacity, some ptr, size⟩, false⟩)
    (hblock : s.block ptr = some chars)
    (hother : s.buffer other = some ⟨.heapBuffer k, false⟩) (hlarge : size < k.size)
    (hgrant : E.allocator k.size = none) :
    copyAssign E this other s = (.threw .badAlloc, s.free ptr size) := by
  rw [copyAssign, bind_of_ok (fields_ok hthis), bind_of_ok (fields_ok hother), if_neg hne]
  refine (congrFun (if_pos hlarge) s).trans ?_
  refine (bind_of_ok (deallocate_ok hblock size)).trans ?_
  exact bind_of_threw (allocateAtLeast_none hgrant)

/-- The new block is lost, and what is copied goes to the one that has been freed. -/
theorem copyAssign_long_large {capacity size : Nat} {capacity' ptr' : Nat}
    {chars' : List UInt8}
    (hthis : s.buffer this = some ⟨.heapBuffer ⟨capacity, some ptr, size⟩, false⟩)
    (hblock : s.block ptr = some chars)
    (hother : s.buffer other = some ⟨.heapBuffer ⟨capacity', some ptr', chars'.length⟩, false⟩)
    (hblock' : s.block ptr' = some chars') (hptr : ptr' ≠ ptr) (hlarge : size < chars'.length)
    {grant : Grant chars'.length} (hgrant : E.allocator chars'.length = some grant) :
    copyAssign E this other s
      = (if size = 0 then .ok () else .undefined, (s.free ptr size).grow grant.chars) := by
  have hfreed : ((s.free ptr size).grow grant.chars).block ptr = none := by
    have hlt : ptr ≠ (s.free ptr size).blocks.length := by
      rw [State.free, List.length_set]
      exact Nat.ne_of_lt (lt_of_block hblock)
    rw [block_grow, if_neg hlt, block_free, if_pos rfl]
  have hread : readChars (some ptr') (min size chars'.length)
      ((s.free ptr size).grow grant.chars)
        = (.ok (chars'.take size), (s.free ptr size).grow grant.chars) := by
    have hlt : ptr' ≠ (s.free ptr size).blocks.length := by
      rw [State.free, List.length_set]
      exact Nat.ne_of_lt (lt_of_block hblock')
    have hkept : ((s.free ptr size).grow grant.chars).block ptr' = some chars' := by
      rw [block_grow, if_neg hlt, block_free, if_neg hptr, hblock']
    rw [Nat.min_eq_left (Nat.le_of_lt hlarge), readChars_ok hkept (Nat.le_of_lt hlarge)]
  rw [copyAssign, bind_of_ok (fields_ok hthis), bind_of_ok (fields_ok hother), if_neg hne]
  refine (congrFun (if_pos hlarge) s).trans ?_
  refine (bind_of_ok (deallocate_ok hblock size)).trans ?_
  refine (bind_of_ok (allocateAtLeast_some hgrant)).trans ?_
  refine (bind_of_ok hread).trans ?_
  by_cases hzero : size = 0
  · subst hzero
    rw [if_pos rfl, List.take_zero]
    refine (bind_of_ok (writeChars_nil _ _)).trans ?_
    show writeChars (some ptr) _ (List.replicate (0 - min 0 chars'.length) 0) _ = _
    rw [Nat.zero_sub]
    exact writeChars_nil _ _
  · have hnonempty : chars'.take size ≠ [] := by
      intro hnil
      have hlength := congrArg List.length hnil
      rw [List.length_take, List.length_nil] at hlength
      omega
    rw [if_neg hzero]
    exact bind_of_undefined (writeChars_freed hfreed 0 hnonempty)

end Others

theorem set_comm (hne : this ≠ other) (s : State H n) (x y : Option (Buffer n)) :
    (s.set this x).set other y = (s.set other y).set this x := by
  rw [State.set, State.set, State.set, State.set, Function.update_comm hne]

theorem swapShortString_ok (hthis : s.buffer this = some t) (hother : s.buffer other = some o) :
    swapShortString this other s = (.ok (),
      (s.set this (some ⟨t.mBuffer, o.mIsShortString⟩)).set other
        (some ⟨o.mBuffer, t.mIsShortString⟩)) := by
  have hkept : (s.set this (some ⟨t.mBuffer, o.mIsShortString⟩)).buffer other = some o := by
    by_cases hsame : other = this
    · subst hsame
      obtain rfl : t = o := Option.some.inj (hthis.symm.trans hother)
      exact buffer_set_self ..
    · rw [buffer_set_other hsame, hother]
  rw [swapShortString, bind_of_ok (fields_ok hthis), bind_of_ok (fields_ok hother),
    bind_of_ok (setShortString_ok hthis _)]
  exact setShortString_ok hkept _

theorem swapUnion_ok (hthis : s.buffer this = some t) (hother : s.buffer other = some o) :
    swapUnion this other s = (.ok (),
      (s.set this (some ⟨o.mBuffer, t.mIsShortString⟩)).set other
        (some ⟨t.mBuffer, o.mIsShortString⟩)) := by
  rw [swapUnion, bind_of_ok (fields_ok hthis), bind_of_ok (fields_ok hother)]
  rfl

/-- The two buffers are exchanged, also if they are one. -/
theorem moveAssign_ok (hthis : s.buffer this = some t) (hother : s.buffer other = some o) :
    moveAssign this other s = (.ok (), (s.set this (some o)).set other (some t)) := by
  rw [moveAssign, bind_of_ok (swapShortString_ok hthis hother)]
  by_cases hsame : this = other
  · subst hsame
    obtain rfl : t = o := Option.some.inj (hthis.symm.trans hother)
    rw [set_eq_self hthis, set_eq_self hthis, swapUnion_ok hthis hthis]
    show (Outcome.ok (), (s.set this (some t)).set this (some t)) = _
    rw [set_eq_self hthis, set_eq_self hthis]
  · have hthis' : ((s.set this (some ⟨t.mBuffer, o.mIsShortString⟩)).set other
        (some ⟨o.mBuffer, t.mIsShortString⟩)).buffer this
          = some ⟨t.mBuffer, o.mIsShortString⟩ := by
      rw [buffer_set_other hsame, buffer_set_self]
    rw [swapUnion_ok hthis' (buffer_set_self ..), set_comm (Ne.symm hsame), set_set, set_set]

end Members

end CharStringBuffer
