import CppPlayground.LRUCache.Failures

/-! # `LRUCache`: the reference that `insert` returns

    `shrink_to_fit` runs between the creation of a node and the reference to it.  With room
    for one node it keeps the first, which is the new one; with room for none it removes
    them all, and `m_elements.front()` is undefined.  What this rests on holds of every
    state, also of those that a failed emplacement has led to: each entry of the table leads
    to a node that carries its key. -/

namespace LRUCache

open Program Transition

variable {K V : Type} [DecidableEq K] {c c' : Cache K V} {key : K} {value : V}
  {capacity : Nat} {throws : LibCall → Bool}

/-- Nodes are distinct, and every entry leads to a node that carries its key. -/
structure Findable (c : Cache K V) : Prop where
  ids : (c.mElements.map Node.id).Nodup
  fresh : ∀ n ∈ c.mElements, n.id < c.nextNode
  entry : ∀ key pos, c.mLookup.lookup key = some pos →
    ∃ n ∈ c.mElements, n.key = key ∧ n.id = pos

theorem Findable.grown (h : Findable c) (key : K) (value : V) :
    Findable (c.grown key value) where
  ids := fresh_ids h.ids h.fresh key value
  fresh := fresh_lt h.fresh key value
  entry k pos hentry := by
    by_cases hk : k = key
    · subst hk
      rw [Cache.grown, AList.lookup_insert] at hentry
      exact ⟨_, List.mem_cons_self .., rfl, Option.some.inj hentry⟩
    · rw [Cache.grown, AList.lookup_insert_ne hk] at hentry
      obtain ⟨n, hn, hkey⟩ := h.entry k pos hentry
      exact ⟨n, List.mem_cons_of_mem _ hn, hkey⟩

/-- The node of a failed emplacement harms no entry. -/
theorem Findable.withoutEntry (h : Findable c) (key : K) (value : V) :
    Findable (c.withoutEntry key value) where
  ids := fresh_ids h.ids h.fresh key value
  fresh := fresh_lt h.fresh key value
  entry k pos hentry := by
    obtain ⟨n, hn, hkey⟩ := h.entry k pos hentry
    exact ⟨n, List.mem_cons_of_mem _ hn, hkey⟩

theorem Findable.evicted (h : Findable c) {pre : List (Node K V)} {last : Node K V}
    (heq : c.mElements = pre ++ [last]) : Findable (c.evicted last) := by
  have hdrop : c.mElements.dropLast = pre := by rw [heq, List.dropLast_concat]
  have hsub : c.mElements.dropLast.Sublist c.mElements := List.dropLast_sublist _
  refine ⟨(hsub.map _).nodup h.ids, fun n hn => h.fresh n (hsub.mem hn), ?_⟩
  intro k pos hentry
  by_cases hk : k = last.key
  · rw [hk, Cache.evicted, AList.lookup_erase] at hentry
    exact absurd hentry.symm (Option.some_ne_none pos)
  · -- an entry for another key leads to another node
    rw [Cache.evicted, AList.lookup_erase_ne hk] at hentry
    obtain ⟨n, hn, hkey, hid⟩ := h.entry k pos hentry
    rw [heq] at hn
    rcases List.mem_append.mp hn with hpre | hlast
    · exact ⟨n, by rw [Cache.evicted, hdrop]; exact hpre, hkey, hid⟩
    · rw [List.mem_singleton.mp hlast] at hkey
      exact absurd hkey.symm hk

theorem Findable.of_perm (h : Findable c) {es : List (Node K V)}
    (hp : (es.map fun n => (n.key, n.id)).Perm (c.mElements.map fun n => (n.key, n.id))) :
    Findable { c with mElements := es } where
  ids := (ids_of_perm hp).nodup_iff.mpr h.ids
  fresh := fresh_of_perm h.fresh hp
  entry key pos hentry := (mem_of_perm hp key pos).mpr (h.entry key pos hentry)

theorem Consistent.findable (h : Consistent c) : Findable c :=
  ⟨h.ids, h.fresh, fun key pos hentry => (h.lookup key pos).mp hentry⟩

theorem findable_stable : Stable (Findable : Cache K V → Prop) where
  ids h := h.ids
  of_perm h hp := h.of_perm hp
  evicted h heq := h.evicted heq

omit [DecidableEq K] in
/-- The first node is found by its identity. -/
theorem Cache.node_front (hids : (c.mElements.map Node.id).Nodup) {n : Node K V}
    {rest : List (Node K V)} (heq : c.mElements = n :: rest) : c.node n.id = some n :=
  node_eq hids (show c.mElements = [] ++ n :: rest from heq)

/-- An entry leads into the list. -/
theorem Findable.split (h : Findable c) {pos : ListIterator}
    (hentry : c.mLookup.lookup key = some pos) :
    ∃ pre n post, c.mElements = pre ++ n :: post ∧ n.key = key ∧ n.id = pos := by
  obtain ⟨n, hn, hkey, hid⟩ := h.entry key pos hentry
  obtain ⟨pre, post, heq⟩ := List.append_of_mem hn
  exact ⟨pre, n, post, heq, hkey, hid⟩

/-! ## One `insert` -/

/-- `insert` throws what the library throws, or returns a reference to a node that is in
    the list and holds the value under the key; it takes no `front()` of an empty list and
    dereferences no node that is gone. -/
def ReturnsValid (throws : LibCall → Bool) (key : K) (value : V) (c : Cache K V) : Prop :=
  wp (insert throws key value) (fun ref c' => c'.node ref = some ⟨ref, key, value⟩)
    (fun e _ => throws e = true) c

/-- With room for a node, `insert` returns a reference to the node with the value. -/
theorem Findable.insert_spec (h : Findable c) (hpos : 0 < c.mCapacity)
    (throws : LibCall → Bool) (key : K) (value : V) :
    wp (insert throws key value)
      (fun ref c' => c'.node ref = some ⟨ref, key, value⟩ ∧ Findable c'
        ∧ c'.mCapacity = c.mCapacity)
      (fun e c' => throws e = true ∧ (InsertFails throws c key value e c' ∨ c' = c)) c := by
  cases hentry : c.mLookup.lookup key with
  | none =>
      refine wp_mono (insert_new_spec findable_stable hpos hentry throws value
        (h.grown key value)) ?_ (fun _ _ he => ⟨he.1.1, Or.inl he.1⟩)
      rintro ref c' ⟨hc', hcap, rfl, heq⟩
      exact ⟨Cache.node_front hc'.ids heq, hc', hcap⟩
  | some pos =>
      obtain ⟨pre, n, post, heq, rfl, rfl⟩ := h.split hentry
      refine wp_mono (insert_present_spec findable_stable h heq hentry throws value) ?_
        (fun _ _ he => ⟨he.1, Or.inr he.2⟩)
      rintro ref c' ⟨hc', rfl, rfl⟩
      exact ⟨Cache.node_front hc'.ids rfl, hc', rfl⟩

omit [DecidableEq K] in
theorem mayThrow_quiet {call : LibCall} (h : throws call = false) (c : Cache K V) :
    mayThrow throws call c = (.ok (), c) := by
  rw [mayThrow, h]
  rfl

/-- Once a new key has its node and its entry, the rest of `insert` runs on the larger
    cache. -/
theorem insert_grown (hnone : c.mLookup.lookup key = none) (value : V)
    (hfind : throws .find = false) (hfront : throws .emplaceFront = false)
    (hemplace : throws .emplace = false) :
    insert throws key value c
      = (do shrinkToFit; let first ← front; pure first.id) (c.grown key value) := by
  have hlookup : find throws key c = (.ok none, c) := by
    refine (bind_of_ok (mayThrow_quiet hfind c)).trans ?_
    rw [← hnone]
    rfl
  have hnode : emplaceFront throws key value c = (.ok (), c.withoutEntry key value) :=
    bind_of_ok (mayThrow_quiet hfront c)
  have hfirst : (front : Prog (Cache K V) LibCall (Node K V)) (c.withoutEntry key value)
      = (.ok ⟨c.nextNode, key, value⟩, c.withoutEntry key value) := rfl
  have hentry : emplace throws key c.nextNode (c.withoutEntry key value)
      = (.ok (), c.grown key value) := by
    refine (bind_of_ok (mayThrow_quiet hemplace _)).trans ?_
    refine congrArg (Prod.mk _) (if_neg ?_)
    exact AList.lookup_eq_none.mp hnone
  refine (bind_of_ok hlookup).trans ?_
  refine (bind_of_ok hnode).trans ?_
  refine (bind_of_ok hfirst).trans ?_
  exact bind_of_ok hentry

/-- Without room, every `insert` that makes its entry ends in `front()` of an empty list. -/
theorem Findable.insert_undefined (h : Findable c) (hzero : c.mCapacity = 0)
    (hnone : c.mLookup.lookup key = none) (value : V) (hfind : throws .find = false)
    (hfront : throws .emplaceFront = false) (hemplace : throws .emplace = false) :
    (insert throws key value c).1 = .undefined := by
  rw [insert_grown hnone value hfind hfront hemplace]
  refine bind_undefined (shrinkToFit_spec findable_stable (h.grown key value)) ?_
  rintro - c' ⟨-, -, hlist⟩
  -- nothing is left, and `front()` needs something
  have hempty : c'.mElements = [] := by
    rw [hlist]
    show (_ :: c.mElements).take c.mCapacity = []
    rw [hzero, List.take_zero]
  have hundefined : front c' = (.undefined, c') := by
    rw [front, access, hempty]
    rfl
  rw [bind_of_undefined hundefined]

/-! ## Whole runs -/

/-- What a run without undefined behaviour leads to: entries that can be followed, and none
    at all where there is no room for a node. -/
structure Usable (capacity : Nat) (c : Cache K V) : Prop where
  findable : Findable c
  capacity_eq : c.mCapacity = capacity
  no_entry : capacity = 0 → ∀ key, c.mLookup.lookup key = none

/-- Capacity and table are as before. -/
theorem Usable.of_lookup (h : Usable capacity c) (hfindable : Findable c')
    (hcap : c'.mCapacity = c.mCapacity) (hlookup : c'.mLookup = c.mLookup) :
    Usable capacity c' :=
  ⟨hfindable, hcap.trans h.capacity_eq, fun hzero key => hlookup ▸ h.no_entry hzero key⟩

/-- What a failed `insert` leaves can be used. -/
theorem Usable.insertFails (h : Usable capacity c) {e : LibCall}
    (hfails : InsertFails throws c key value e c') : Usable capacity c' := by
  obtain ⟨-, hleft⟩ := hfails
  by_cases he : e = .emplace
  · rw [if_pos he] at hleft
    subst hleft
    exact h.of_lookup (h.findable.withoutEntry key value) rfl rfl
  · rw [if_neg he] at hleft
    exact hleft ▸ h

/-- An `insert` of a new key in which one of the three calls throws. -/
theorem insert_throws_spec (hnone : c.mLookup.lookup key = none) (value : V)
    (hthrows : ¬ (throws .find = false ∧ throws .emplaceFront = false
      ∧ throws .emplace = false)) :
    wp (insert throws key value) (fun _ _ => False) (InsertFails throws c key value) c := by
  rw [insert, wp_bind, wp_find, hnone]
  refine ⟨fun hth => ⟨hth, rfl⟩, ?_⟩
  intro hfind
  simp only [emplaceFront, emplace, front, wp_bind, wp_mayThrow, wp_modify, wp_access]
  refine ⟨fun hth => ⟨hth, rfl⟩, ?_⟩
  intro hfront
  refine ⟨_, rfl, fun hth => ⟨hth, rfl⟩, ?_⟩
  intro hemplace
  exact absurd ⟨hfind, hfront, hemplace⟩ hthrows

theorem Usable.insert (h : Usable capacity c) (throws : LibCall → Bool) (key : K) (value : V)
    (hdefined : (exec throws (.insert key value) c).1 ≠ .undefined) :
    Usable capacity (exec throws (.insert key value) c).2 := by
  by_cases hzero : capacity = 0
  · -- the call has thrown, since it is not undefined
    have hnone := h.no_entry hzero key
    have hthrows : ¬ (throws .find = false ∧ throws .emplaceFront = false
        ∧ throws .emplace = false) := by
      rintro ⟨hfind, hfront, hemplace⟩
      have hundefined := h.findable.insert_undefined (h.capacity_eq.trans hzero) hnone value
        hfind hfront hemplace
      have hinsert : LRUCache.insert throws key value c
          = (.undefined, (LRUCache.insert throws key value c).2) := Prod.ext hundefined rfl
      exact hdefined (congrArg Prod.fst (bind_of_undefined hinsert))
    have hexec : wp (exec throws (.insert key value)) (fun _ _ => False)
        (InsertFails throws c key value) c := by
      rw [exec, wp_bind]
      exact wp_mono (insert_throws_spec hnone value hthrows) (fun _ _ hf => hf.elim)
        (fun _ _ he => he)
    obtain ⟨e, -, hfails⟩ := wp_threw hexec
    exact h.insertFails hfails
  · have hpos : 0 < c.mCapacity := h.capacity_eq ▸ Nat.pos_of_ne_zero hzero
    have hexec : wp (exec throws (.insert key value)) (fun _ c' => Usable capacity c')
        (fun _ c' => Usable capacity c') c := by
      rw [exec, wp_bind]
      refine wp_mono (h.findable.insert_spec hpos throws key value) ?_ ?_
      · rintro ref c' ⟨hnode, hc', hcap⟩
        rw [wp_bind, deref, wp_access]
        exact ⟨_, hnode, hc', hcap.trans h.capacity_eq, fun h0 => absurd h0 hzero⟩
      · rintro e c' ⟨-, hfails | rfl⟩
        · exact h.insertFails hfails
        · exact h
    exact wp_state hexec

theorem Usable.get (h : Usable capacity c) (throws : LibCall → Bool) (key : K) :
    Usable capacity (exec throws (.get key) c).2 := by
  have hexec : wp (exec throws (.get key)) (fun _ c' => Usable capacity c')
      (fun _ c' => Usable capacity c') c := by
    cases hentry : c.mLookup.lookup key with
    | none =>
        refine wp_mono (get_absent_spec hentry throws) ?_ ?_
        · rintro r c' ⟨-, rfl⟩
          exact h
        · rintro e c' ⟨-, rfl⟩
          exact h
    | some pos =>
        obtain ⟨pre, n, post, heq, rfl, rfl⟩ := h.findable.split hentry
        refine wp_mono (get_present_spec findable_stable h.findable heq hentry throws) ?_ ?_
        · rintro r c' ⟨hc', -, rfl⟩
          exact h.of_lookup hc' rfl rfl
        · rintro e c' ⟨-, hc', hleft⟩
          by_cases he : e = .find
          · rw [if_pos he] at hleft
            exact hleft ▸ h
          · rw [if_neg he] at hleft
            subst hleft
            exact h.of_lookup hc' rfl rfl
  exact wp_state hexec

/-- **When `insert` returns a valid reference**, in every state that a run without undefined
    behaviour leads to, failed emplacements included: exactly if there is room for a node. -/
theorem insert_returns_valid_iff {tr : List (ThrowingEvent K V)}
    (h : Run ((throwingCaches K V capacity).restrict fun _ a => a.2.2 ≠ .undefined) tr c)
    (key : K) (value : V) :
    (∀ throws, ReturnsValid throws key value c) ↔ 1 ≤ capacity := by
  have husable : Usable capacity c := by
    refine Run.invariant (S := (throwingCaches K V capacity).restrict _)
      (I := fun _ c => Usable capacity c) ?_ ?_ h
    · rintro c rfl
      refine ⟨(consistent_construct capacity).findable, rfl, fun _ key => ?_⟩
      exact AList.lookup_empty key
    · rintro tr c ⟨throws, op, out⟩ c' - hs ⟨hexec, hdefined⟩
      have hout : out = (exec throws op c).1 := (congrArg Prod.fst hexec).symm
      have hnext : c' = (exec throws op c).2 := (congrArg Prod.snd hexec).symm
      subst hout hnext
      cases op with
      | insert key value => exact hs.insert throws key value hdefined
      | get key => exact hs.get throws key
  constructor
  · intro hvalid
    by_contra hsmall
    have hzero : capacity = 0 := by omega
    have hundefined := husable.findable.insert_undefined (husable.capacity_eq.trans hzero)
      (husable.no_entry hzero key) value (show quiet .find = false from rfl) rfl rfl
    have hquiet := hvalid quiet
    rw [ReturnsValid, wp, hundefined] at hquiet
    exact hquiet
  · intro hroom throws
    exact wp_mono (husable.findable.insert_spec (husable.capacity_eq ▸ hroom) throws key value)
      (fun _ _ hq => hq.1) (fun _ _ he => he.1)

/-- An emplacement throws, and the key comes again. -/
theorem insert_returns_valid_after_failure : ∃ tr c,
    Run ((throwingCaches Nat Nat 2).restrict fun _ a => a.2.2 ≠ .undefined) tr c
      ∧ tr.length = 2 ∧ ∀ throws, ReturnsValid throws 1 12 c := by
  have hfirst := run_throwing (run_construct (fun _ a => a.2.2 ≠ .undefined) 2)
    (only .emplace) (.insert 1 10) (by decide)
  have hsecond := run_throwing hfirst quiet (.insert 1 11) (by decide)
  exact ⟨_, _, hsecond, rfl, (insert_returns_valid_iff hsecond 1 12).mpr (by decide)⟩

/-- **A cache without room takes `front()` of an empty list** in the first `insert`. -/
theorem insert_without_room_undefined :
    ¬ ∀ (capacity : Nat) (tr : List (ThrowingEvent Nat Nat)) (c : Cache Nat Nat),
      Run (throwingCaches Nat Nat capacity) tr c → ReturnsValid quiet 1 10 c := by
  intro hall
  have hvalid := hall 0 _ _ (run_construct (fun _ _ => True) 0).of_restrict
  have hundefined : (insert quiet 1 10 (Cache.construct 0 : Cache Nat Nat)).1 = .undefined := by
    decide
  rw [ReturnsValid, wp, hundefined] at hvalid
  exact hvalid

end LRUCache
