import CppPlayground.LRUCache.Invariant

/-! # `LRUCache`: calls of the library that throw

    `insert` of a new key adds the node to `m_elements` before the entry to `m_lookup`, and
    nothing takes the node back if the entry cannot be made.  The other calls that ask
    `throws` do so before any change, or after a node has only moved to the front (the copy
    in `get`), so this emplacement is the one way to a list and a table that disagree, as
    long as `m_lookup.erase`, which comes after both additions, does not throw. -/

namespace LRUCache

open Program Transition

variable {K V : Type} [DecidableEq K]

/-- Which calls of the library throw, the call and the way it ended. -/
abbrev ThrowingEvent (K V : Type) : Type := (LibCall → Bool) × Event K V

/-- All runs of a cache, whatever throws in them. -/
def throwingCaches (K V : Type) [DecidableEq K] (capacity : Nat) :
    System (Cache K V) (ThrowingEvent K V) where
  init c := c = Cache.construct capacity
  step c a c' := exec a.1 a.2.1 c = (a.2.2, c')

/-- `insert` does not come to an emplacement that throws: the key has an entry, an earlier
    call throws, or the emplacement does not. -/
def EmplacesEntry (c : Cache K V) (throws : LibCall → Bool) : Op K V → Prop
  | .insert key _ => c.mLookup.lookup key ≠ none ∨ throws .find = true
      ∨ throws .emplaceFront = true ∨ throws .emplace = false
  | .get _ => True

/-- List and table describe the same cache, within its capacity. -/
structure KeepsTogether (c : Cache K V) : Prop where
  keys : c.keys.Nodup
  entries : c.mLookup.keys.Perm c.keys
  lookup : ∀ key pos, c.mLookup.lookup key = some pos
    ↔ ∃ n ∈ c.mElements, n.key = key ∧ n.id = pos
  fits : c.size ≤ c.mCapacity

/-- An `insert`, whatever throws in it, leaves the entry of every node that it leaves. -/
def EvictsOwnEntry (c : Cache K V) : Prop :=
  ∀ throws key value k pos, c.mLookup.lookup k = some pos →
    (∃ n ∈ (exec throws (.insert key value) c).2.mElements, n.id = pos) →
    (exec throws (.insert key value) c).2.mLookup.lookup k = some pos

variable {c c' : Cache K V} {key : K} {value : V} {capacity : Nat} {throws : LibCall → Bool}
  {op : Op K V}

theorem Sound.keepsTogether (h : Sound capacity c) : KeepsTogether c where
  keys := h.consistent.keys
  entries := h.consistent.keys_perm
  lookup := h.consistent.lookup
  fits := h.capacity_eq ▸ h.fits

/-! ## One call -/

/-- The node is there and its entry is not. -/
def Cache.withoutEntry (c : Cache K V) (key : K) (value : V) : Cache K V :=
  { c with mElements := ⟨c.nextNode, key, value⟩ :: c.mElements, nextNode := c.nextNode + 1 }

/-- The nodes of `c'` are nodes of `c`, with other values perhaps, or new. -/
def NodesFrom (c c' : Cache K V) : Prop :=
  ∀ n ∈ c'.mElements, n.id = c.nextNode ∨ ∃ m ∈ c.mElements, m.key = n.key ∧ m.id = n.id

/-- What a throwing `insert` leaves: nothing, or the node without its entry. -/
def InsertThrows (c : Cache K V) (throws : LibCall → Bool) (key : K) (value : V)
    (c' : Cache K V) : Prop :=
  c' = c ∨ (¬ EmplacesEntry c throws (.insert key value) ∧ c' = c.withoutEntry key value)

/-- What an `insert` that returns leaves. -/
def InsertReturns (capacity : Nat) (c : Cache K V) (value : V) (r : Option V)
    (c' : Cache K V) : Prop := r = some value ∧ Sound capacity c' ∧ NodesFrom c c'

theorem insert_present_throwing (h : Sound capacity c) (hkey : key ∈ c.keys) (value : V)
    (throws : LibCall → Bool) :
    wp (exec throws (.insert key value)) (InsertReturns capacity c value)
      (fun _ c' => InsertThrows c throws key value c') c := by
  have hc := h.consistent
  obtain ⟨pre, n, post, heq, rfl⟩ := split_of_mem_keys hkey
  refine exec_insert_spec (wp_mono
    (insert_present_spec consistent_stable hc heq (hc.lookup_eq heq) throws value) ?_ ?_)
  · rintro ref c' ⟨hc', rfl, rfl⟩
    refine ⟨hc', ⟨_, rfl⟩, h.of_length hc' rfl (length_moved heq _), ?_⟩
    intro m hm
    rw [heq]
    rcases List.mem_cons.mp hm with rfl | hrest
    · exact Or.inr ⟨n, by simp, rfl, rfl⟩
    · rcases List.mem_append.mp hrest with hpre | hpost
      · exact Or.inr ⟨m, by simp [hpre], rfl, rfl⟩
      · exact Or.inr ⟨m, by simp [hpost], rfl, rfl⟩
  · rintro e c' ⟨-, rfl⟩
    exact Or.inl rfl

theorem insert_new_throwing (hcap : 0 < capacity) (h : Sound capacity c)
    (hkey : key ∉ c.keys) (value : V) (throws : LibCall → Bool) :
    wp (exec throws (.insert key value)) (InsertReturns capacity c value)
      (fun _ c' => InsertThrows c throws key value c') c := by
  have hc := h.consistent
  have hnone := hc.lookup_none.mpr hkey
  have hpos : 0 < c.mCapacity := h.capacity_eq ▸ hcap
  refine exec_insert_spec (wp_mono (insert_new_spec consistent_stable hpos hnone throws value
    (hc.grown hkey value)) ?_ ?_)
  · rintro ref c' ⟨hc', hcap', rfl, heq⟩
    rw [h.capacity_eq] at heq hcap'
    refine ⟨hc', ⟨_, heq⟩, ⟨hc', hcap', ?_⟩, ?_⟩
    · rw [Cache.size, heq, List.length_cons, List.length_take]
      omega
    · intro m hm
      rw [heq] at hm
      rcases List.mem_cons.mp hm with rfl | hrest
      · exact Or.inl rfl
      · exact Or.inr ⟨m, List.mem_of_mem_take hrest, rfl, rfl⟩
  · rintro e c' ⟨⟨hth, hleft⟩, hbefore⟩
    by_cases he : e = .emplace
    · subst he
      obtain ⟨hfind, hfront⟩ := hbefore rfl
      refine Or.inr ⟨?_, hleft⟩
      rw [EmplacesEntry, hnone, hfind, hfront, hth]
      simp
    · rw [if_neg he] at hleft
      exact Or.inl hleft

theorem insert_throwing_spec (hcap : 0 < capacity) (h : Sound capacity c) (key : K) (value : V)
    (throws : LibCall → Bool) :
    wp (exec throws (.insert key value)) (InsertReturns capacity c value)
      (fun _ c' => InsertThrows c throws key value c') c := by
  by_cases hkey : key ∈ c.keys
  · exact insert_present_throwing h hkey value throws
  · exact insert_new_throwing hcap h hkey value throws

/-- An emplacement that throws. -/
theorem insert_emplace_throws (h : ¬ EmplacesEntry c throws (.insert key value)) :
    exec throws (.insert key value) c = (.threw .emplace, c.withoutEntry key value) := by
  simp only [EmplacesEntry, not_or, ne_eq, Decidable.not_not, Bool.not_eq_true,
    Bool.not_eq_false] at h
  obtain ⟨hnone, hfind, hfront, hemplace⟩ := h
  have hwp : wp (exec throws (.insert key value)) (fun _ _ => False)
      (fun e c' => e = .emplace ∧ c' = c.withoutEntry key value) c := by
    rw [exec, wp_bind, insert, wp_bind, wp_find, hnone]
    refine ⟨fun hth => absurd (hth.symm.trans hfind) (by decide), fun _ => ?_⟩
    simp [emplaceFront, emplace, front, wp_mayThrow, hfront, hemplace, Cache.withoutEntry]
  obtain ⟨e, hthrew, rfl, hleft⟩ := wp_threw hwp
  exact Prod.ext hthrew hleft

/-- The table misses the new node. -/
theorem withoutEntry_apart (hnone : c.mLookup.lookup key = none) (value : V) :
    ¬ KeepsTogether (c.withoutEntry key value) := by
  intro htogether
  have hentry := (htogether.lookup key c.nextNode).mpr ⟨_, List.mem_cons_self .., rfl, rfl⟩
  exact absurd (hentry.symm.trans hnone) (Option.some_ne_none _)

theorem get_throwing_spec (h : Sound capacity c) (key : K) (throws : LibCall → Bool) :
    wp (exec throws (.get key)) (fun _ c' => Sound capacity c') (fun _ c' => Sound capacity c')
      c := by
  have hc := h.consistent
  by_cases hkey : key ∈ c.keys
  · obtain ⟨pre, n, post, heq, rfl⟩ := split_of_mem_keys hkey
    refine wp_mono (get_present_spec consistent_stable hc heq (hc.lookup_eq heq) throws) ?_ ?_
    · rintro r c' ⟨hc', -, rfl⟩
      exact h.of_length hc' rfl (length_moved heq _)
    · rintro e c' ⟨-, hc', hleft⟩
      by_cases he : e = .find
      · rw [if_pos he] at hleft
        exact hleft ▸ h
      · rw [if_neg he] at hleft
        subst hleft
        exact h.of_length hc' rfl (length_moved heq _)
  · refine wp_mono (get_absent_spec (hc.lookup_none.mpr hkey) throws) ?_ ?_
    · rintro r c' ⟨-, rfl⟩
      exact h
    · rintro e c' ⟨-, rfl⟩
      exact h

/-- Every call returns or throws. -/
theorem Sound.exec_defined (hcap : 0 < capacity) (h : Sound capacity c)
    (throws : LibCall → Bool) (op : Op K V) :
    (∃ r, (exec throws op c).1 = .ok r) ∨ ∃ e, (exec throws op c).1 = .threw e := by
  have hends : ∀ {Q : Option V → Cache K V → Prop} {E : LibCall → Cache K V → Prop},
      wp (exec throws op) Q E c →
      (∃ r, (exec throws op c).1 = .ok r) ∨ ∃ e, (exec throws op c).1 = .threw e := by
    intro Q E hwp
    rcases wp_cases hwp with ⟨r, hok, -⟩ | ⟨e, hthrew, -⟩
    · exact Or.inl ⟨r, hok⟩
    · exact Or.inr ⟨e, hthrew⟩
  cases op with
  | insert key value => exact hends (insert_throwing_spec hcap h key value throws)
  | get key => exact hends (get_throwing_spec h key throws)

/-- **One call keeps list and table together** unless its emplacement throws. -/
theorem Sound.step_throwing (hcap : 0 < capacity) (h : Sound capacity c)
    (hemplaces : EmplacesEntry c throws op) : Sound capacity (exec throws op c).2 := by
  cases op with
  | insert key value =>
      rcases wp_cases (insert_throwing_spec hcap h key value throws) with
        ⟨_, -, -, hs, -⟩ | ⟨_, -, hleft⟩
      · exact hs
      · rcases hleft with hsame | ⟨hnot, -⟩
        · rw [hsame]
          exact h
        · exact absurd hemplaces hnot
  | get key => exact wp_state (get_throwing_spec h key throws)

theorem Sound.keepsTogether_iff (hcap : 0 < capacity) (h : Sound capacity c)
    (throws : LibCall → Bool) (op : Op K V) :
    KeepsTogether (exec throws op c).2 ↔ EmplacesEntry c throws op := by
  constructor
  · intro htogether
    by_contra hnot
    cases op with
    | insert key value =>
        rw [insert_emplace_throws hnot] at htogether
        have hnone : c.mLookup.lookup key = none := by
          by_contra hsome
          exact hnot (Or.inl hsome)
        exact withoutEntry_apart hnone value htogether
    | get key => exact hnot trivial
  · intro hemplaces
    exact (h.step_throwing hcap hemplaces).keepsTogether

/-- What an `insert` evicts from the table is the entry of a node that it removes. -/
theorem Sound.evictsOwnEntry (hcap : 0 < capacity) (h : Sound capacity c) :
    EvictsOwnEntry c := by
  intro throws key value k pos hentry hnode
  rcases wp_cases (insert_throwing_spec hcap h key value throws) with
    ⟨_, -, -, hs, hfrom⟩ | ⟨_, -, hleft⟩
  · obtain ⟨n, hn, rfl⟩ := hnode
    obtain ⟨m, hm, rfl, hid⟩ := (h.consistent.lookup k n.id).mp hentry
    -- the node that is left is the one the entry led to, which keeps its key
    refine (hs.consistent.lookup m.key n.id).mpr ⟨n, hn, ?_, rfl⟩
    rcases hfrom n hn with hnew | ⟨m', hm', hkey', hid'⟩
    · exact absurd (h.consistent.fresh m hm) (by rw [hid, hnew]; exact Nat.lt_irrefl _)
    · have hsame : m' = m :=
        List.inj_on_of_nodup_map h.consistent.ids hm' hm (hid'.trans hid.symm)
      rw [← hkey', hsame]
  · rcases hleft with hsame | ⟨-, hsame⟩
    · rw [hsame]
      exact hentry
    · rw [hsame]
      exact hentry

/-! ## Whole runs -/

/-- **List and table stay together through calls that throw**, in every run in which no
    emplacement of a new key throws: then no `insert` evicts the entry of a node that stays,
    and no call meets undefined behaviour.  The condition cannot be weakened: the next call
    keeps them together exactly if it meets it. -/
theorem runs_keep_together (hcap : 1 ≤ capacity) {tr : List (ThrowingEvent K V)}
    (h : Run ((throwingCaches K V capacity).restrict fun c a => EmplacesEntry c a.1 a.2.1) tr c) :
    KeepsTogether c ∧ EvictsOwnEntry c
      ∧ ∀ throws op, (KeepsTogether (exec throws op c).2 ↔ EmplacesEntry c throws op)
        ∧ ((∃ r, (exec throws op c).1 = .ok r) ∨ ∃ e, (exec throws op c).1 = .threw e) := by
  have hs : Sound capacity c := by
    refine Run.invariant (S := (throwingCaches K V capacity).restrict _)
      (I := fun _ c => Sound capacity c) ?_ ?_ h
    · rintro c rfl
      exact ⟨consistent_construct capacity, rfl, Nat.zero_le _⟩
    · rintro tr c ⟨throws, op, out⟩ c' - hs ⟨hexec, hemplaces⟩
      have hnext := hs.step_throwing hcap hemplaces
      rwa [hexec] at hnext
  exact ⟨hs.keepsTogether, hs.evictsOwnEntry hcap, fun throws op =>
    ⟨hs.keepsTogether_iff hcap throws op, hs.exec_defined hcap throws op⟩⟩

/-- Every call can be the next one. -/
theorem run_throwing {C : Cache K V → ThrowingEvent K V → Prop} {tr : List (ThrowingEvent K V)}
    (h : Run ((throwingCaches K V capacity).restrict C) tr c) (throws : LibCall → Bool)
    (op : Op K V) (hC : C c (throws, op, (exec throws op c).1)) :
    Run ((throwingCaches K V capacity).restrict C)
      (tr ++ [(throws, op, (exec throws op c).1)]) (exec throws op c).2 :=
  .snoc h ⟨rfl, hC⟩

theorem run_construct (C : Cache K V → ThrowingEvent K V → Prop) (capacity : Nat) :
    Run ((throwingCaches K V capacity).restrict C) [] (Cache.construct capacity) := .start rfl

/-- One of the library calls throws. -/
def only (call : LibCall) (other : LibCall) : Bool := other == call

/-- The construction of a node throws, and then the assignment of a value. -/
def failingInserts : List (ThrowingEvent Nat Nat) :=
  [(quiet, .insert 1 10, .ok (some 10)), (only .emplaceFront, .insert 2 20, .threw .emplaceFront),
    (only .assign, .insert 1 11, .threw .assign)]

theorem failingInserts_keep_together : ∃ c,
    Run ((throwingCaches Nat Nat 2).restrict fun c a => EmplacesEntry c a.1 a.2.1)
      failingInserts c ∧ KeepsTogether c := by
  have hfirst := run_throwing (run_construct (fun c a => EmplacesEntry c a.1 a.2.1) 2) quiet
    (.insert 1 10) (Or.inr (Or.inr (Or.inr rfl)))
  have hsecond := run_throwing hfirst (only .emplaceFront) (.insert 2 20)
    (Or.inr (Or.inr (Or.inl rfl)))
  have hthird := run_throwing hsecond (only .assign) (.insert 1 11)
    (Or.inr (Or.inr (Or.inr rfl)))
  exact ⟨_, hthird, (runs_keep_together (by decide) hthird).1⟩

/-- **An emplacement that throws leaves a node without an entry**; the next `insert` of the
    key makes a second node for it. -/
theorem failedEmplace_duplicates_key :
    ¬ ∀ (tr : List (ThrowingEvent Nat Nat)) (c : Cache Nat Nat),
      Run (throwingCaches Nat Nat 2) tr c → KeepsTogether c := by
  intro hall
  have hfirst := run_throwing (run_construct (fun _ _ => True) 2) (only .emplace)
    (.insert 1 10) trivial
  have hsecond := run_throwing hfirst quiet (.insert 1 11) trivial
  exact absurd (hall _ _ hsecond.of_restrict).keys (by decide)

end LRUCache
