import CppPlayground.CharStringBuffer.Steps

/-! # What a copy of a `CharStringBuffer` holds

    The copy constructor copies.  The copy assignment allocates and frees, but never
    copies to `*this`: where it copies short strings it has `other` on both sides, and
    where it allocates it forgets either the characters or the new block.  It is right
    where there is nothing to do. -/

namespace CharStringBuffer

open Program

variable {H : Type} {n : Nat} {s s' : State H n} {this other : H} {E : Environment n}
  {chars old : List UInt8} {ptr : Nat}

/-- The characters of a buffer; nothing is said of the member of the union that was not
    written last, and of a block that is freed or of another size. -/
def State.contents (s : State H n) (this : H) : Option (List UInt8) :=
  match s.buffer this with
  | some ⟨.stackBuffer chars, true⟩ => some chars.toList
  | some ⟨.heapBuffer h, false⟩ => (h.ptr.bind s.block).filter fun chars => chars.length = h.size
  | _ => none

/-- Whether a buffer is short. -/
def State.isShort (s : State H n) (this : H) : Option Bool :=
  (s.buffer this).map Buffer.mIsShortString

/-- Two buffers do not share a block. -/
def Apart (s : State H n) (this other : H) : Prop :=
  ∀ ptr size size', s.data this = some (ptr, size) → s.data other ≠ some (ptr, size')

/-- After `s` has become `s'`, `this` is a copy of `other`: it has its characters and then
    zeros. -/
structure IsCopy (s s' : State H n) (this other : H) (chars : List UInt8) : Prop where
  copied : ∃ surplus, s'.contents this = some (chars ++ List.replicate surplus 0)
  unchanged : s'.buffer other = s.buffer other ∧ s'.contents other = some chars
  apart : Apart s' this other

/-- A call that returns, if there is memory for as much as a long `other` has, and leaves a
    copy, whatever else it finds. -/
def Copies (call : Environment n → Prog (State H n) Exn Unit) (s : State H n) (this other : H)
    (chars : List UInt8) : Prop :=
  ∀ E, (∀ ptr size, s.data other = some (ptr, size) → E.allocator size ≠ none) →
    ∃ s', call E s = (.ok (), s') ∧ IsCopy s s' this other chars

/-! ## The two kinds of buffers -/

theorem contents_short {v : Vector UInt8 n} (h : s.buffer this = some ⟨.stackBuffer v, true⟩) :
    s.contents this = some v.toList := by
  rw [State.contents, h]

theorem contents_long {capacity : Nat}
    (h : s.buffer this = some ⟨.heapBuffer ⟨capacity, some ptr, chars.length⟩, false⟩)
    (hblock : s.block ptr = some chars) : s.contents this = some chars := by
  rw [State.contents, h]
  show (s.block ptr).filter _ = _
  rw [hblock]
  exact Option.filter_some_pos (decide_eq_true rfl)

/-- A long buffer that has lost its block. -/
theorem contents_freed {capacity size : Nat}
    (h : s.buffer this = some ⟨.heapBuffer ⟨capacity, some ptr, size⟩, false⟩)
    (hblock : s.block ptr = none) : s.contents this = none := by
  rw [State.contents, h]
  show (s.block ptr).filter _ = _
  rw [hblock]
  rfl

theorem contents_cases (h : s.contents this = some chars) :
    (∃ v : Vector UInt8 n, s.buffer this = some ⟨.stackBuffer v, true⟩ ∧ v.toList = chars)
      ∨ ∃ capacity ptr,
        s.buffer this = some ⟨.heapBuffer ⟨capacity, some ptr, chars.length⟩, false⟩
          ∧ s.block ptr = some chars := by
  rw [State.contents] at h
  split at h
  · rename_i v hbuffer
    exact .inl ⟨v, hbuffer, Option.some.inj h⟩
  · rename_i hb hbuffer
    obtain ⟨capacity, ptr, size⟩ := hb
    obtain ⟨hblock, hsize⟩ := Option.filter_eq_some_iff.mp h
    obtain ⟨p, rfl, hblock⟩ := Option.bind_eq_some_iff.mp hblock
    obtain rfl := of_decide_eq_true hsize
    exact .inr ⟨capacity, p, hbuffer, hblock⟩
  · cases h

/-- A short buffer shares no block. -/
theorem apart_of_none (h : s.data this = none ∨ s.data other = none) : Apart s this other := by
  intro ptr size size' hthis hother
  rcases h with h | h
  · rw [h] at hthis; cases hthis
  · rw [h] at hother; cases hother

theorem apart_of_ne {ptr' size size' : Nat} (hthis : s.data this = some (ptr, size))
    (hother : s.data other = some (ptr', size')) (hne : ptr ≠ ptr') : Apart s this other := by
  intro p m m' hthis' hother'
  rw [hthis] at hthis'
  rw [hother] at hother'
  cases hthis'
  cases hother'
  exact hne rfl

/-! ## Copy construction -/

section Members

variable [DecidableEq H]

/-- A buffer that has been given a block. -/
theorem contents_set_long {capacity : Nat} (hblock : s.block ptr = some chars) :
    (s.set this (some ⟨.heapBuffer ⟨capacity, some ptr, chars.length⟩, false⟩)).contents this
      = some chars :=
  contents_long (s := s.set this _) (buffer_set_self ..) hblock

/-- A buffer that has been set, and another one. -/
theorem isCopy_set {s₁ : State H n} {b : Buffer n} (surplus : Nat) (hne : this ≠ other)
    (hthis : (s₁.set this (some b)).contents this
      = some (chars ++ List.replicate surplus 0))
    (hbuffer : s₁.buffer other = s.buffer other) (hother : s₁.contents other = some chars)
    (hapart : Apart (s₁.set this (some b)) this other) :
    IsCopy s (s₁.set this (some b)) this other chars := by
  have hkept : (s₁.set this (some b)).buffer other = s₁.buffer other :=
    buffer_set_other (Ne.symm hne) _ _
  refine ⟨⟨surplus, hthis⟩, ⟨hkept.trans hbuffer, ?_⟩, hapart⟩
  rw [State.contents, hkept]
  exact hother

/-- **The copy constructor copies**, from short and from long buffers. -/
theorem copyConstruct_copies (hother : s.contents other = some chars)
    (hthis : s.buffer this = none) :
    Copies (fun E => copyConstruct E this other) s this other chars := by
  intro E hE
  have hne : this ≠ other := by
    rintro rfl
    rw [State.contents, hthis] at hother
    cases hother
  rcases contents_cases hother with ⟨v, hbuffer, rfl⟩ | ⟨capacity, ptr, hbuffer, hblock⟩
  · refine ⟨_, copyConstruct_short hbuffer hthis, ?_⟩
    have hnew := buffer_set_self s this (some ⟨.stackBuffer v, true⟩)
    refine isCopy_set 0 hne ?_ rfl hother (apart_of_none (.inl (data_of_short hnew)))
    rw [List.replicate_zero, List.append_nil]
    exact contents_short hnew
  · have hgranted := hE _ _ (data_of_long hbuffer)
    obtain ⟨grant, hgrant⟩ := Option.ne_none_iff_exists'.mp hgranted
    obtain ⟨surplus, hrun⟩ := copyConstruct_long hbuffer hblock hthis hgrant
    refine ⟨_, hrun, ?_⟩
    have hfresh : ptr ≠ s.blocks.length := Nat.ne_of_lt (lt_of_block hblock)
    have hold : (s.grow (chars ++ List.replicate surplus 0)).block ptr = some chars := by
      rw [block_grow, if_neg hfresh, hblock]
    have hcopy : (s.grow (chars ++ List.replicate surplus 0)).block s.blocks.length
        = some (chars ++ List.replicate surplus 0) := by
      rw [block_grow, if_pos rfl]
    have hnew := buffer_set_self (s.grow (chars ++ List.replicate surplus 0)) this
      (some (newLong E s (chars ++ List.replicate surplus 0).length))
    have hkept := (buffer_set_other (Ne.symm hne) (s.grow (chars ++ List.replicate surplus 0))
      (some (newLong E s (chars ++ List.replicate surplus 0).length))).trans hbuffer
    refine isCopy_set surplus hne (contents_set_long hcopy) rfl (contents_long hbuffer hold) ?_
    exact apart_of_ne (data_of_long hnew) (data_of_long hkept) (Ne.symm hfresh)

end Members

/-! ## Copy assignment -/

/-- An allocator that gives one character more than it is asked for, and that is no
    zero. -/
def scribbling (n : Nat) : Environment n where
  allocator count := some ⟨List.replicate count 0 ++ [1], by
    rw [List.length_append, List.length_replicate]
    omega⟩
  stackBuffer := Vector.replicate n 0
  heapBuffer := ⟨0, none, 0⟩

theorem scribble_ne (surplus : Nat) :
    List.replicate chars.length (0 : UInt8) ++ [1] ≠ chars ++ List.replicate surplus 0 := by
  intro heq
  have hlength := congrArg List.length heq
  rw [List.length_append, List.length_append, List.length_replicate, List.length_replicate,
    List.length_singleton] at hlength
  obtain rfl : surplus = 1 := by omega
  have hlast := congrArg List.getLast? heq
  rw [List.getLast?_concat] at hlast
  have hzero : (chars ++ List.replicate 1 (0 : UInt8)).getLast? = some 0 := List.getLast?_concat
  rw [hzero] at hlast
  cases hlast

/-- What it leaves is a copy, also with that allocator. -/
theorem Copies.of_run {call : Environment n → Prog (State H n) Exn Unit}
    (h : Copies call s this other chars) {out : Outcome Exn Unit}
    (hrun : call (scribbling n) s = (out, s')) :
    out = .ok () ∧ IsCopy s s' this other chars := by
  obtain ⟨s₁, hrun₁, hcopy⟩ := h (scribbling n) fun _ _ _ => Option.some_ne_none _
  cases hrun.symm.trans hrun₁
  exact ⟨rfl, hcopy⟩

/-- A buffer that does nothing is a copy if it was one. -/
theorem isCopy_self (hthis : s.contents this = some old) (hother : s.contents other = some chars) :
    IsCopy s s this other chars
      ↔ (∃ surplus, old = chars ++ List.replicate surplus 0) ∧ Apart s this other := by
  constructor
  · rintro ⟨⟨surplus, hcopied⟩, -, hapart⟩
    exact ⟨⟨surplus, Option.some.inj (hthis.symm.trans hcopied)⟩, hapart⟩
  · rintro ⟨⟨surplus, rfl⟩, hapart⟩
    exact ⟨⟨surplus, hthis⟩, ⟨rfl, hother⟩, hapart⟩

theorem copies_of_nothing {call : Environment n → Prog (State H n) Exn Unit}
    (hrun : ∀ E, call E s = (.ok (), s)) :
    Copies call s this other chars ↔ IsCopy s s this other chars :=
  ⟨fun h => (h.of_run (hrun _)).2, fun hcopy E _ => ⟨s, hrun E, hcopy⟩⟩

section Assign

variable [DecidableEq H] (hne : this ≠ other)
include hne

/-- Short to short: `other` is copied to itself. -/
theorem copyAssign_short_short_iff {u v : Vector UInt8 n}
    (hthis : s.buffer this = some ⟨.stackBuffer u, true⟩)
    (hother : s.buffer other = some ⟨.stackBuffer v, true⟩) :
    Copies (fun E => copyAssign E this other) s this other chars
      ↔ IsCopy s s this other chars := by
  refine copies_of_nothing fun E => ?_
  refine (copyAssign_short_short hne hthis hother).trans ?_
  exact congrArg (Prod.mk _) (set_eq_self hother)

/-- Long to short: the new block is not written. -/
theorem copyAssign_short_long_not {u : Union n} {capacity : Nat}
    (hthis : s.buffer this = some ⟨u, true⟩)
    (hother : s.buffer other = some ⟨.heapBuffer ⟨capacity, some ptr, chars.length⟩, false⟩) :
    ¬ Copies (fun E => copyAssign E this other) s this other chars := by
  intro h
  obtain ⟨-, ⟨surplus, hcopied⟩, -, -⟩ := h.of_run (copyAssign_short_long hne hthis hother rfl)
  have hblock : (s.grow (List.replicate chars.length 0 ++ [1])).block s.blocks.length
      = some (List.replicate chars.length 0 ++ [1]) := by
    rw [block_grow, if_pos rfl]
  have hcontents := (contents_set_long hblock).symm.trans hcopied
  exact scribble_ne surplus (Option.some.inj hcontents)

/-- Short to long: the buffer is called short, and holds what is left of the long one. -/
theorem copyAssign_long_short_not {capacity size : Nat} {v : Union n}
    (hthis : s.buffer this = some ⟨.heapBuffer ⟨capacity, some ptr, size⟩, false⟩)
    (hblock : s.block ptr = some old) (hother : s.buffer other = some ⟨v, true⟩) :
    ¬ Copies (fun E => copyAssign E this other) s this other chars := by
  intro h
  obtain ⟨-, ⟨surplus, hcopied⟩, -, -⟩ :=
    h.of_run (copyAssign_long_short hne hthis hblock hother)
  rw [State.contents, buffer_set_other hne, buffer_set_self] at hcopied
  cases hcopied

/-- Long to a shorter long one: the block is freed. -/
theorem copyAssign_long_large_not {capacity capacity' ptr' : Nat}
    (hthis : s.buffer this = some ⟨.heapBuffer ⟨capacity, some ptr, old.length⟩, false⟩)
    (hblock : s.block ptr = some old)
    (hother : s.buffer other = some ⟨.heapBuffer ⟨capacity', some ptr', chars.length⟩, false⟩)
    (hblock' : s.block ptr' = some chars) (hlarge : old.length < chars.length) :
    ¬ Copies (fun E => copyAssign E this other) s this other chars := by
  intro h
  have hptr : ptr' ≠ ptr := by
    rintro rfl
    cases hblock.symm.trans hblock'
    exact Nat.lt_irrefl _ hlarge
  obtain ⟨-, ⟨surplus, hcopied⟩, -, -⟩ :=
    h.of_run (copyAssign_long_large hne hthis hblock hother hblock' hptr hlarge rfl)
  have hfresh : ptr ≠ (s.free ptr old.length).blocks.length := by
    rw [State.free, List.length_set]
    exact Nat.ne_of_lt (lt_of_block hblock)
  have hfreed : ((s.free ptr old.length).grow
      (List.replicate chars.length 0 ++ [1])).block ptr = none := by
    rw [block_grow, if_neg hfresh, block_free, if_pos rfl]
  have hcontents := contents_freed (s := (s.free ptr old.length).grow _) hthis hfreed
  cases hcontents.symm.trans hcopied

/-- **The copy assignment copies where it has nothing to do**, between buffers of one
    kind. -/
theorem copyAssign_copies_iff (hthis : s.contents this = some old)
    (hother : s.contents other = some chars) :
    Copies (fun E => copyAssign E this other) s this other chars
      ↔ s.isShort this = s.isShort other
        ∧ (∃ surplus, old = chars ++ List.replicate surplus 0) ∧ Apart s this other := by
  rw [← isCopy_self hthis hother]
  rcases contents_cases hthis with ⟨u, hbuffer, hu⟩ | ⟨capacity, ptr, hbuffer, hblock⟩
  · rcases contents_cases hother with ⟨v, hbuffer', hv⟩ | ⟨capacity', ptr', hbuffer', hblock'⟩
    · have hsame : s.isShort this = s.isShort other := by
        rw [State.isShort, State.isShort, hbuffer, hbuffer']
        rfl
      rw [copyAssign_short_short_iff hne hbuffer hbuffer']
      exact (and_iff_right hsame).symm
    · refine iff_of_false (copyAssign_short_long_not hne hbuffer hbuffer') ?_
      rintro ⟨hsame, -⟩
      rw [State.isShort, State.isShort, hbuffer, hbuffer'] at hsame
      cases hsame
  · rcases contents_cases hother with ⟨v, hbuffer', hv⟩ | ⟨capacity', ptr', hbuffer', hblock'⟩
    · refine iff_of_false (copyAssign_long_short_not hne hbuffer hblock hbuffer') ?_
      rintro ⟨hsame, -⟩
      rw [State.isShort, State.isShort, hbuffer, hbuffer'] at hsame
      cases hsame
    · have hsame : s.isShort this = s.isShort other := by
        rw [State.isShort, State.isShort, hbuffer, hbuffer']
        rfl
      by_cases hroom : chars.length ≤ old.length
      · rw [copies_of_nothing fun E => copyAssign_long_small hne hbuffer hbuffer' hroom]
        exact (and_iff_right hsame).symm
      · have hlarge := Nat.lt_of_not_le hroom
        refine iff_of_false
          (copyAssign_long_large_not hne hbuffer hblock hbuffer' hblock' hlarge) ?_
        rintro ⟨-, hcopy⟩
        obtain ⟨⟨surplus, rfl⟩, -⟩ := (isCopy_self hthis hother).mp hcopy
        exact hroom (by rw [List.length_append]; omega)

end Assign

/-- **Value semantics of `CharStringBuffer`**: copy construction has it, self-assignment
    changes nothing, and assignment to another buffer has it exactly if the two are of one
    kind and the characters are there already. -/
theorem copies_iff [DecidableEq H] (hother : s.contents other = some chars) :
    (∀ this, s.buffer this = none →
        Copies (fun E => copyConstruct E this other) s this other chars)
      ∧ (∀ E, copyAssign E other other s = (.ok (), s))
      ∧ ∀ this old, this ≠ other → s.contents this = some old →
        (Copies (fun E => copyAssign E this other) s this other chars
          ↔ s.isShort this = s.isShort other
            ∧ (∃ surplus, old = chars ++ List.replicate surplus 0) ∧ Apart s this other) := by
  refine ⟨fun this => copyConstruct_copies hother, fun E => ?_, ?_⟩
  · cases hbuffer : s.buffer other with
    | none =>
        rw [State.contents, hbuffer] at hother
        cases hother
    | some b => exact copyAssign_self hbuffer
  · exact fun this old hne hthis => copyAssign_copies_iff hne hthis hother

/-- Two long buffers with the characters of `"a"`, the first one with room for more. -/
def twoLong : State Nat 24 where
  buffer
    | 0 => some ⟨.heapBuffer ⟨0, some 0, 32⟩, false⟩
    | 1 => some ⟨.heapBuffer ⟨0, some 1, 26⟩, false⟩
    | _ => none
  blocks := [some (97 :: List.replicate 31 0), some (97 :: List.replicate 25 0)]
  allocated := [(0, 32), (1, 26)]
  deallocated := []

theorem twoLong_copies :
    Copies (fun E => copyConstruct E 2 1) twoLong 2 1 (97 :: List.replicate 25 0)
      ∧ (∀ E, copyAssign E 1 1 twoLong = (.ok (), twoLong))
      ∧ Copies (fun E => copyAssign E 0 1) twoLong 0 1 (97 :: List.replicate 25 0) := by
  have hother : twoLong.contents 1 = some (97 :: List.replicate 25 0) := by decide
  have hthis : twoLong.contents 0 = some (97 :: List.replicate 31 0) := by decide
  obtain ⟨hconstruct, hself, hassign⟩ := copies_iff hother
  have hzero : twoLong.data 0 = some (0, 32) := rfl
  have hone : twoLong.data 1 = some (1, 26) := rfl
  have hapart := apart_of_ne hzero hone (by decide)
  exact ⟨hconstruct 2 rfl, hself,
    (hassign 0 _ (by decide) hthis).mpr ⟨rfl, ⟨6, rfl⟩, hapart⟩⟩

/-- A short buffer of zeros, and a short buffer with the characters of `"a"`. -/
def twoShort : State Nat 24 where
  buffer
    | 0 => some ⟨zeros 24, true⟩
    | 1 => some ⟨.stackBuffer ((Vector.replicate 24 0).set 0 97), true⟩
    | _ => none
  blocks := []
  allocated := []
  deallocated := []

/-- The assignment of the second one to the first one changes neither. -/
theorem short_not_copied :
    twoShort.contents 1 = some (97 :: List.replicate 23 0)
      ∧ (∀ E, ∃ s', copyAssign E 0 1 twoShort = (.ok (), s')
        ∧ s'.contents 0 = some (List.replicate 24 0))
      ∧ ¬ Copies (fun E => copyAssign E 0 1) twoShort 0 1 (97 :: List.replicate 23 0) := by
  have hother : twoShort.contents 1 = some (97 :: List.replicate 23 0) := by decide
  have hthis : twoShort.contents 0 = some (List.replicate 24 0) := by decide
  refine ⟨hother, fun E => ⟨_, copyAssign_short_short (by decide) rfl rfl, hthis⟩, fun h => ?_⟩
  obtain ⟨-, ⟨surplus, heq⟩, -⟩ := (copyAssign_copies_iff (by decide) hthis hother).mp h
  have hhead := congrArg List.head? heq
  cases hhead

end CharStringBuffer
