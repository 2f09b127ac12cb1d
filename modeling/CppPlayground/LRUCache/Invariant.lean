import Mathlib.Data.List.Perm.Basic
import CppPlayground.LRUCache.Model

/-! # `LRUCache`: the list and the lookup table agree

    `Consistent` ties `m_lookup` to `m_elements`; one lemma per library call says what
    the call does to it, one specification per member follows, and
    `runs_keep_structures_together` reads them over whole runs. -/

namespace LRUCache

open Program Transition

variable {K V : Type} [DecidableEq K]

/-- The keys of the recency list. -/
def Cache.keys (c : Cache K V) : List K := c.mElements.map Node.key

/-- The two structures describe the same cache: keys and nodes are distinct, and the
    lookup table maps each key to the node that carries it. -/
structure Consistent (c : Cache K V) : Prop where
  keys : c.keys.Nodup
  ids : (c.mElements.map Node.id).Nodup
  lookup : ∀ key pos, c.mLookup.lookup key = some pos
    ↔ ∃ n ∈ c.mElements, n.key = key ∧ n.id = pos
  fresh : ∀ n ∈ c.mElements, n.id < c.nextNode

variable {c : Cache K V} {key : K} {value : V} {pos : ListIterator}

theorem consistent_construct (capacity : Nat) :
    Consistent (Cache.construct capacity : Cache K V) where
  keys := List.nodup_nil
  ids := List.nodup_nil
  lookup key pos := by
    constructor
    · intro h
      rw [Cache.construct, AList.lookup_empty] at h
      exact nomatch h
    · rintro ⟨n, hn, -⟩
      exact nomatch hn
  fresh n hn := nomatch hn

/-- A key has an entry exactly if a node carries it. -/
theorem Consistent.mem_lookup (h : Consistent c) (key : K) :
    key ∈ c.mLookup ↔ key ∈ c.keys := by
  rw [← AList.lookup_isSome, Option.isSome_iff_exists]
  constructor
  · rintro ⟨pos, hpos⟩
    obtain ⟨n, hn, hkey, -⟩ := (h.lookup key pos).mp hpos
    exact List.mem_map.mpr ⟨n, hn, hkey⟩
  · intro hkey
    obtain ⟨n, hn, rfl⟩ := List.mem_map.mp hkey
    exact ⟨n.id, (h.lookup n.key n.id).mpr ⟨n, hn, rfl, rfl⟩⟩

theorem Consistent.lookup_none (h : Consistent c) :
    c.mLookup.lookup key = none ↔ key ∉ c.keys := by
  rw [AList.lookup_eq_none, h.mem_lookup]

/-- The lookup table has one entry per node. -/
theorem Consistent.keys_perm (h : Consistent c) : c.mLookup.keys.Perm c.keys := by
  refine (List.perm_ext_iff_of_nodup c.mLookup.keys_nodup h.keys).mpr ?_
  intro key
  rw [← AList.mem_keys, h.mem_lookup]

section Nodes

variable {es ns : List (Node K V)}

omit [DecidableEq K] in
/-- A new node has a new identity. -/
theorem fresh_ids (hids : (c.mElements.map Node.id).Nodup)
    (hfresh : ∀ n ∈ c.mElements, n.id < c.nextNode) (key : K) (value : V) :
    (((⟨c.nextNode, key, value⟩ : Node K V) :: c.mElements).map Node.id).Nodup := by
  refine List.nodup_cons.mpr ⟨?_, hids⟩
  intro hmem
  obtain ⟨n, hn, hid⟩ := List.mem_map.mp hmem
  exact Nat.lt_irrefl _ (hid ▸ hfresh n hn)

omit [DecidableEq K] in
theorem fresh_lt (hfresh : ∀ n ∈ c.mElements, n.id < c.nextNode) (key : K) (value : V) :
    ∀ n ∈ (⟨c.nextNode, key, value⟩ : Node K V) :: c.mElements, n.id < c.nextNode + 1 := by
  intro n hn
  rcases List.mem_cons.mp hn with rfl | hmem
  · exact Nat.lt_succ_self _
  · exact Nat.lt_succ_of_lt (hfresh n hmem)

omit [DecidableEq K] in
theorem ids_of_perm
    (hp : (es.map fun n => (n.key, n.id)).Perm (ns.map fun n => (n.key, n.id))) :
    (es.map Node.id).Perm (ns.map Node.id) := by
  have := hp.map Prod.snd
  rwa [List.map_map, List.map_map] at this

omit [DecidableEq K] in
/-- Rearranged nodes are found under the same keys. -/
theorem mem_of_perm
    (hp : (es.map fun n => (n.key, n.id)).Perm (ns.map fun n => (n.key, n.id)))
    (key : K) (pos : ListIterator) :
    (∃ n ∈ es, n.key = key ∧ n.id = pos) ↔ ∃ n ∈ ns, n.key = key ∧ n.id = pos := by
  have := hp.mem_iff (a := (key, pos))
  simpa only [List.mem_map, Prod.mk.injEq] using this

omit [DecidableEq K] in
theorem fresh_of_perm (hfresh : ∀ n ∈ ns, n.id < pos)
    (hp : (es.map fun n => (n.key, n.id)).Perm (ns.map fun n => (n.key, n.id))) :
    ∀ n ∈ es, n.id < pos := by
  intro n hn
  obtain ⟨m, hm, -, hid⟩ := (mem_of_perm hp n.key n.id).mp ⟨n, hn, rfl, rfl⟩
  exact hid ▸ hfresh m hm

end Nodes

/-- Only the order and the values of the nodes may change freely. -/
theorem Consistent.of_perm (h : Consistent c) {es : List (Node K V)}
    (hp : (es.map fun n => (n.key, n.id)).Perm (c.mElements.map fun n => (n.key, n.id))) :
    Consistent { c with mElements := es } := by
  have hkeys : (es.map Node.key).Perm (c.mElements.map Node.key) := by
    have := hp.map Prod.fst
    rwa [List.map_map, List.map_map] at this
  refine ⟨hkeys.nodup_iff.mpr h.keys, (ids_of_perm hp).nodup_iff.mpr h.ids, ?_,
    fresh_of_perm h.fresh hp⟩
  intro key pos
  rw [mem_of_perm hp]
  exact h.lookup key pos

/-- A key occurs in one node. -/
theorem Consistent.lookup_eq (h : Consistent c) {pre post : List (Node K V)} {n : Node K V}
    (heq : c.mElements = pre ++ n :: post) : c.mLookup.lookup n.key = some n.id :=
  (h.lookup n.key n.id).mpr ⟨n, by rw [heq]; simp, rfl, rfl⟩

omit [DecidableEq K] in
/-- No other node has the identity of `n`. -/
theorem ids_ne (hids : (c.mElements.map Node.id).Nodup) {pre post : List (Node K V)}
    {n : Node K V} (heq : c.mElements = pre ++ n :: post) :
    (∀ m ∈ pre, m.id ≠ n.id) ∧ ∀ m ∈ post, m.id ≠ n.id := by
  rw [heq, List.map_append, List.map_cons, List.nodup_append, List.nodup_cons] at hids
  obtain ⟨-, ⟨hpost, -⟩, hpre⟩ := hids
  constructor
  · intro m hm
    exact hpre m.id (List.mem_map_of_mem hm) n.id (List.mem_cons_self ..)
  · intro m hm hid
    exact hpost (hid ▸ List.mem_map_of_mem hm)

/-! ## Nodes and entries come and go -/

/-- A new node with its entry. -/
def Cache.grown (c : Cache K V) (key : K) (value : V) : Cache K V :=
  { c with
    mElements := ⟨c.nextNode, key, value⟩ :: c.mElements
    mLookup := c.mLookup.insert key c.nextNode
    nextNode := c.nextNode + 1 }

theorem Consistent.grown (h : Consistent c) (hkey : key ∉ c.keys) (value : V) :
    Consistent (c.grown key value) where
  keys := List.nodup_cons.mpr ⟨hkey, h.keys⟩
  ids := fresh_ids h.ids h.fresh key value
  lookup k pos := by
    show (c.mLookup.insert key c.nextNode).lookup k = some pos
      ↔ ∃ n ∈ (⟨c.nextNode, key, value⟩ : Node K V) :: c.mElements, n.key = k ∧ n.id = pos
    rw [List.exists_mem_cons_iff]
    by_cases hk : k = key
    · subst hk
      rw [AList.lookup_insert, Option.some.injEq]
      constructor
      · exact fun hid => Or.inl ⟨rfl, hid⟩
      · rintro (⟨-, hid⟩ | ⟨n, hn, rfl, -⟩)
        · exact hid
        · exact absurd (List.mem_map_of_mem hn) hkey
    · rw [AList.lookup_insert_ne hk, h.lookup]
      constructor
      · exact Or.inr
      · rintro (⟨hkk, -⟩ | hn)
        · exact absurd hkk.symm hk
        · exact hn
  fresh := fresh_lt h.fresh key value

/-- Without the last node and its entry. -/
def Cache.evicted (c : Cache K V) (last : Node K V) : Cache K V :=
  { c with mElements := c.mElements.dropLast, mLookup := c.mLookup.erase last.key }

theorem Consistent.evicted (h : Consistent c) {pre : List (Node K V)} {last : Node K V}
    (heq : c.mElements = pre ++ [last]) : Consistent (c.evicted last) := by
  have hdrop : c.mElements.dropLast = pre := by rw [heq, List.dropLast_concat]
  have hsub : c.mElements.dropLast.Sublist c.mElements := List.dropLast_sublist _
  refine ⟨(hsub.map _).nodup h.keys, (hsub.map _).nodup h.ids, ?_, ?_⟩
  · intro key pos
    show (c.mLookup.erase last.key).lookup key = some pos
      ↔ ∃ n ∈ c.mElements.dropLast, n.key = key ∧ n.id = pos
    rw [hdrop]
    have hkeys := h.keys
    rw [Cache.keys, heq, List.map_append, List.nodup_append] at hkeys
    have hlast : ∀ n ∈ pre, n.key ≠ last.key := fun n hn =>
      hkeys.2.2 n.key (List.mem_map_of_mem hn) last.key (List.mem_singleton_self _)
    by_cases hk : key = last.key
    · -- the erased key: no node is left that carries it
      rw [hk, AList.lookup_erase]
      refine iff_of_false nofun ?_
      rintro ⟨n, hn, hkey, -⟩
      exact hlast n hn hkey
    · rw [AList.lookup_erase_ne hk, h.lookup, heq]
      constructor
      · rintro ⟨n, hn, hkey, hid⟩
        rcases List.mem_append.mp hn with hpre | hl
        · exact ⟨n, hpre, hkey, hid⟩
        · rw [List.mem_singleton.mp hl] at hkey
          exact absurd hkey.symm hk
      · rintro ⟨n, hn, hkey, hid⟩
        exact ⟨n, List.mem_append_left _ hn, hkey, hid⟩
  · intro n hn
    exact h.fresh n (hsub.mem hn)

/-! ## Invariants of the calls -/

/-- A property of caches that survives what the calls do to nodes that are there: the
    nodes have distinct identities, they may be rearranged and get new values, and the
    last one may go with its entry. -/
structure Stable (I : Cache K V → Prop) : Prop where
  ids : ∀ {c}, I c → (c.mElements.map Node.id).Nodup
  of_perm : ∀ {c} {es : List (Node K V)}, I c →
    (es.map fun n => (n.key, n.id)).Perm (c.mElements.map fun n => (n.key, n.id)) →
    I { c with mElements := es }
  evicted : ∀ {c} {pre : List (Node K V)} {last : Node K V}, I c →
    c.mElements = pre ++ [last] → I (c.evicted last)

theorem consistent_stable : Stable (Consistent : Cache K V → Prop) where
  ids h := h.ids
  of_perm h hp := h.of_perm hp
  evicted h heq := h.evicted heq

variable {I : Cache K V → Prop}

/-! ## The calls on a node -/

section Node

variable {pre post : List (Node K V)} {n : Node K V}

omit [DecidableEq K] in
theorem node_eq (hids : (c.mElements.map Node.id).Nodup)
    (heq : c.mElements = pre ++ n :: post) : c.node n.id = some n := by
  obtain ⟨hpre, -⟩ := ids_ne hids heq
  have hnone : pre.find? (fun m => decide (m.id = n.id)) = none :=
    List.find?_eq_none.mpr fun m hm => by simpa using hpre m hm
  rw [Cache.node, heq, List.find?_append, hnone, Option.none_or]
  exact List.find?_cons_of_pos (decide_eq_true rfl)

omit [DecidableEq K] in
theorem eraseP_eq (hids : (c.mElements.map Node.id).Nodup)
    (heq : c.mElements = pre ++ n :: post) :
    (c.mElements.eraseP fun m => m.id = n.id) = pre ++ post := by
  obtain ⟨hpre, -⟩ := ids_ne hids heq
  rw [heq, List.eraseP_append_right _ fun m hm => by simpa using hpre m hm]
  exact congrArg _ (List.eraseP_cons_of_pos (decide_eq_true rfl))

omit [DecidableEq K] in
/-- A map that only acts on the node `n`. -/
theorem map_node_eq (hids : (c.mElements.map Node.id).Nodup)
    (heq : c.mElements = pre ++ n :: post) (f : Node K V → Node K V) :
    (c.mElements.map fun m => if m.id = n.id then f m else m) = pre ++ f n :: post := by
  obtain ⟨hpre, hpost⟩ := ids_ne hids heq
  have hid : ∀ l : List (Node K V), (∀ m ∈ l, m.id ≠ n.id) →
      (l.map fun m => if m.id = n.id then f m else m) = l := by
    intro l hl
    refine (List.map_congr_left ?_).trans (List.map_id l)
    intro m hm
    rw [if_neg (hl m hm)]
    rfl
  rw [heq, List.map_append, List.map_cons, hid pre hpre, hid post hpost, if_pos rfl]

/-- `promote_element` moves the node to the front. -/
theorem promoteElement_spec (hI : Stable I) (h : I c) (heq : c.mElements = pre ++ n :: post)
    {E : LibCall → Cache K V → Prop} :
    wp (promoteElement n.id)
      (fun _ c' => c' = { c with mElements := n :: (pre ++ post) } ∧ I c') E c := by
  have hids := hI.ids h
  rw [promoteElement, wp_change]
  refine ⟨_, by rw [node_eq hids heq, Option.map_some, eraseP_eq hids heq], rfl, ?_⟩
  refine hI.of_perm h ?_
  rw [heq]
  exact (List.perm_middle.symm).map _

omit [DecidableEq K] in
theorem deref_spec (pre : List (Node K V)) (n : Node K V)
    (hids : (c.mElements.map Node.id).Nodup) (heq : c.mElements = pre ++ n :: post)
    {E : LibCall → Cache K V → Prop} :
    wp (deref n.id) (fun m c' => m = n ∧ c' = c) E c := by
  rw [deref, wp_access]
  exact ⟨n, node_eq hids heq, rfl, rfl⟩

/-- The assignment through an iterator changes the value of that node only. -/
theorem assignValue_spec (hI : Stable I) (h : I c) (heq : c.mElements = pre ++ n :: post)
    (throws : LibCall → Bool) (value : V) :
    wp (assignValue throws n.id value)
      (fun _ c' => c' = { c with mElements := pre ++ { n with value := value } :: post }
        ∧ I c')
      (fun e c' => e = .assign ∧ throws e = true ∧ c' = c) c := by
  rw [assignValue, wp_bind]
  refine wp_mono (deref_spec pre n (hI.ids h) heq) ?_ (fun _ _ hf => hf)
  rintro m c' ⟨-, rfl⟩
  rw [wp_bind, mayThrow, wp_attempt, wp_modify]
  constructor
  · intro e he
    by_cases hth : throws .assign = true
    · rw [if_pos hth] at he
      obtain rfl := Option.some.inj he
      exact ⟨rfl, hth, rfl⟩
    · rw [if_neg hth] at he
      exact nomatch he
  · intro _
    rw [map_node_eq (hI.ids h) heq fun m => { m with value := value }]
    refine ⟨rfl, hI.of_perm h ?_⟩
    rw [heq, List.map_append, List.map_append, List.map_cons, List.map_cons]

end Node

/-! ## `shrink_to_fit` -/

/-- A cache during `shrink_to_fit`: it has lost nodes from the back only. -/
structure Shrinking (I : Cache K V → Prop) (c c' : Cache K V) : Prop where
  invariant : I c'
  elements : ∃ m, c.mCapacity ≤ m ∧ c'.mElements = c.mElements.take m
  capacity : c'.mCapacity = c.mCapacity

theorem Shrinking.evicted (hI : Stable I) {c' : Cache K V} (h : Shrinking I c c')
    (hbig : c.mCapacity < c'.mElements.length) {pre : List (Node K V)} {last : Node K V}
    (heq : c'.mElements = pre ++ [last]) : Shrinking I c (c'.evicted last) := by
  obtain ⟨m, hm, helem⟩ := h.elements
  refine ⟨hI.evicted h.invariant heq, ⟨c'.mElements.length - 1, by omega, ?_⟩, h.capacity⟩
  show c'.mElements.dropLast = _
  rw [List.dropLast_eq_take]
  have hle : c'.mElements.length ≤ m := by rw [helem, List.length_take]; omega
  rw [helem, List.take_take, Nat.min_eq_left (by rw [← helem]; omega)]

/-- `shrink_to_fit` keeps the first `m_capacity` nodes and their entries. -/
theorem shrinkToFit_spec (hI : Stable I) (h : I c) {E : LibCall → Cache K V → Prop} :
    wp shrinkToFit (fun _ c' => I c' ∧ c'.mCapacity = c.mCapacity
      ∧ c'.mElements = c.mElements.take c.mCapacity) E c := by
  have hstart : Shrinking I c c := by
    refine ⟨h, ⟨max c.mCapacity c.mElements.length, Nat.le_max_left _ _, ?_⟩, rfl⟩
    exact (List.take_of_length_le (Nat.le_max_right _ _)).symm
  rw [shrinkToFit, wp_bind, wp_gets]
  refine wp_mono (wp_whileLoop (Shrinking I c) Cache.size ?_ _ c (Nat.lt_succ_self _) hstart)
    ?_ (fun _ _ he => he)
  · -- one round
    intro c' hcond hs
    have hbig : c.mCapacity < c'.mElements.length := by
      rw [← hs.capacity]
      exact of_decide_eq_true hcond
    obtain ⟨pre, last, heq⟩ : ∃ pre last, c'.mElements = pre ++ [last] := by
      rcases List.eq_nil_or_concat c'.mElements with hnil | ⟨pre, last, heq⟩
      · rw [hnil] at hbig
        exact absurd hbig (Nat.not_lt_zero _)
      · exact ⟨pre, last, by rw [heq, List.concat_eq_append]⟩
    have hne : c'.mElements ≠ [] := by rw [heq]; simp
    rw [wp_bind, back, wp_access]
    refine ⟨last, by rw [heq, List.getLast?_concat], ?_⟩
    rw [wp_bind, eraseKey, wp_modify, popBack, wp_change]
    refine ⟨c'.evicted last, if_neg hne, hs.evicted hI hbig heq, ?_⟩
    show c'.mElements.dropLast.length < c'.mElements.length
    rw [List.length_dropLast]
    omega
  · -- at the end
    rintro _ c' ⟨hs, hcond⟩
    obtain ⟨m, hm, helem⟩ := hs.elements
    have hsmall : c'.mElements.length ≤ c.mCapacity := by
      rw [← hs.capacity]
      exact Nat.not_lt.mp (of_decide_eq_false hcond)
    refine ⟨hs.invariant, hs.capacity, ?_⟩
    rw [helem, List.length_take] at hsmall
    rw [helem]
    by_cases hle : c.mElements.length ≤ c.mCapacity
    · rw [List.take_of_length_le hle, List.take_of_length_le (by omega)]
    · rw [show m = c.mCapacity by omega]

/-! ## The members -/

omit [DecidableEq K] in
theorem wp_mayThrow (throws : LibCall → Bool) (call : LibCall)
    {Q : Unit → Cache K V → Prop} {E : LibCall → Cache K V → Prop} :
    wp (mayThrow throws call) Q E c
      ↔ (throws call = true → E call c) ∧ (throws call = false → Q () c) := by
  rw [mayThrow, wp_attempt]
  cases throws call <;> simp

theorem wp_find (throws : LibCall → Bool) (key : K)
    {Q : Option ListIterator → Cache K V → Prop} {E : LibCall → Cache K V → Prop} :
    wp (find throws key) Q E c
      ↔ (throws .find = true → E .find c)
        ∧ (throws .find = false → Q (c.mLookup.lookup key) c) := by
  rw [find, wp_bind, wp_mayThrow, wp_gets]

/-- What a failed `insert` leaves behind: only a failed emplacement leaves a trace, the
    node without its entry. -/
def InsertFails (throws : LibCall → Bool) (c : Cache K V) (key : K) (value : V)
    (e : LibCall) (c' : Cache K V) : Prop :=
  throws e = true ∧ c' = if e = .emplace then { c with
    mElements := ⟨c.nextNode, key, value⟩ :: c.mElements, nextNode := c.nextNode + 1 } else c

/-- **`insert` of a key without an entry** puts a new node first and cuts the list to the
    capacity. -/
theorem insert_new_spec (hI : Stable I) (hcap : 0 < c.mCapacity)
    (hnone : c.mLookup.lookup key = none) (throws : LibCall → Bool) (value : V)
    (hgrown : I (c.grown key value)) :
    wp (insert throws key value)
      (fun ref c' => I c' ∧ c'.mCapacity = c.mCapacity ∧ ref = c.nextNode
        ∧ c'.mElements = ⟨c.nextNode, key, value⟩ :: c.mElements.take (c.mCapacity - 1))
      (fun e c' => InsertFails throws c key value e c'
        ∧ (e = .emplace → throws .find = false ∧ throws .emplaceFront = false)) c := by
  rw [insert, wp_bind, wp_find, hnone]
  refine ⟨fun hth => ⟨⟨hth, rfl⟩, LibCall.noConfusion⟩, ?_⟩
  intro hfind
  simp only [emplaceFront, emplace, front, wp_bind, wp_mayThrow, wp_modify, wp_access]
  refine ⟨fun hth => ⟨⟨hth, rfl⟩, LibCall.noConfusion⟩, ?_⟩
  intro hfront
  refine ⟨_, rfl, fun hth => ⟨⟨hth, rfl⟩, fun _ => ⟨hfind, hfront⟩⟩, ?_⟩
  intro _
  -- `emplace` does not overwrite, so it matters that the key is absent
  rw [if_neg (AList.lookup_eq_none.mp hnone)]
  refine wp_mono (shrinkToFit_spec hI hgrown) ?_ (fun _ _ hf => hf)
  rintro _ c' ⟨hc', hcap', helem⟩
  have hcons : c'.mElements
      = ⟨c.nextNode, key, value⟩ :: c.mElements.take (c.mCapacity - 1) := by
    obtain ⟨m, hm⟩ : ∃ m, c.mCapacity = m + 1 := ⟨c.mCapacity - 1, by omega⟩
    rw [helem]
    show (_ :: c.mElements).take c.mCapacity = _
    rw [hm, List.take_succ_cons, Nat.add_sub_cancel]
  refine ⟨⟨c.nextNode, key, value⟩, by rw [hcons]; rfl, ?_⟩
  rw [wp_pure]
  exact ⟨hc', hcap', rfl, hcons⟩

variable {pre post : List (Node K V)} {n : Node K V}

/-- **`insert` of a key with an entry** changes the value of its node and moves it first. -/
theorem insert_present_spec (hI : Stable I) (h : I c) (heq : c.mElements = pre ++ n :: post)
    (hentry : c.mLookup.lookup n.key = some n.id) (throws : LibCall → Bool) (value : V) :
    wp (insert throws n.key value)
      (fun ref c' => I c' ∧ ref = n.id
        ∧ c' = { c with mElements := { n with value := value } :: (pre ++ post) })
      (fun e c' => throws e = true ∧ c' = c) c := by
  rw [insert, wp_bind, wp_find, hentry]
  refine ⟨fun hth => ⟨hth, rfl⟩, ?_⟩
  intro _
  show wp (assignValue throws n.id value >>= _) _ _ c
  rw [wp_bind]
  refine wp_mono (assignValue_spec hI h heq throws value) ?_ ?_
  · rintro _ c₁ ⟨rfl, h₁⟩
    -- the assignment comes first: `promote_element` moves the changed node
    rw [wp_bind]
    refine wp_mono (promoteElement_spec (n := { n with value := value }) hI h₁ rfl) ?_
      (fun _ _ hf => hf)
    rintro _ c₂ ⟨rfl, h₂⟩
    rw [wp_bind]
    refine wp_mono (deref_spec [] { n with value := value } (hI.ids h₂) rfl) ?_ (fun _ _ hf => hf)
    rintro m c₃ ⟨rfl, rfl⟩
    rw [wp_pure]
    exact ⟨h₂, rfl, rfl⟩
  · rintro e c' ⟨rfl, hth, rfl⟩
    exact ⟨hth, rfl⟩

/-- **`get` of a key with an entry** moves its node first and returns its value. -/
theorem get_present_spec (hI : Stable I) (h : I c) (heq : c.mElements = pre ++ n :: post)
    (hentry : c.mLookup.lookup n.key = some n.id) (throws : LibCall → Bool) :
    wp (get throws n.key)
      (fun r c' => I c' ∧ r = some n.value
        ∧ c' = { c with mElements := n :: (pre ++ post) })
      (fun e c' => throws e = true ∧ I c'
        ∧ c' = if e = .find then c else { c with mElements := n :: (pre ++ post) }) c := by
  rw [get, wp_bind, wp_find, hentry]
  refine ⟨fun hth => ⟨hth, h, rfl⟩, ?_⟩
  intro _
  show wp (promoteElement n.id >>= _) _ _ c
  rw [wp_bind]
  refine wp_mono (promoteElement_spec hI h heq) ?_ (fun _ _ hf => hf)
  rintro _ c₁ ⟨rfl, h₁⟩
  rw [wp_bind]
  refine wp_mono (deref_spec [] _ (hI.ids h₁) rfl) ?_ (fun _ _ hf => hf)
  rintro m c₂ ⟨rfl, rfl⟩
  rw [wp_bind, wp_mayThrow]
  exact ⟨fun hth => ⟨hth, h₁, rfl⟩, fun _ => ⟨h₁, rfl, rfl⟩⟩

/-- **`get` of a key without an entry** changes nothing. -/
theorem get_absent_spec (hnone : c.mLookup.lookup key = none) (throws : LibCall → Bool) :
    wp (get throws key) (fun r c' => r = none ∧ c' = c)
      (fun e c' => throws e = true ∧ c' = c) c := by
  rw [get, wp_bind, wp_find, hnone]
  exact ⟨fun hth => ⟨hth, rfl⟩, fun _ => ⟨rfl, rfl⟩⟩

/-! ## Whole runs -/

/-- What a call that does not throw does to the list of a cache within its capacity. -/
structure Calls (c : Cache K V) : Prop where
  insert_new : ∀ key value, key ∉ c.keys → ∃ c',
    exec quiet (.insert key value) c = (.ok (some value), c')
      ∧ c'.mElements = ⟨c.nextNode, key, value⟩
        :: if c.size = c.mCapacity then c.mElements.dropLast else c.mElements
  insert_present : ∀ pre n post value, c.mElements = pre ++ n :: post → ∃ c',
    exec quiet (.insert n.key value) c = (.ok (some value), c')
      ∧ c'.mElements = { n with value := value } :: (pre ++ post)
  get_present : ∀ pre n post, c.mElements = pre ++ n :: post → ∃ c',
    exec quiet (.get n.key) c = (.ok (some n.value), c') ∧ c'.mElements = n :: (pre ++ post)
  get_absent : ∀ key, key ∉ c.keys → exec quiet (.get key) c = (.ok none, c)

/-- A consistent cache within its capacity. -/
structure Sound (capacity : Nat) (c : Cache K V) : Prop where
  consistent : Consistent c
  capacity_eq : c.mCapacity = capacity
  fits : c.size ≤ capacity

variable {capacity : Nat}

omit [DecidableEq K] in
theorem not_insertFails {e : LibCall} {c' : Cache K V} :
    ¬ InsertFails quiet c key value e c' := fun h => nomatch h.1

/-- The reference `insert` returns denotes the inserted value. -/
theorem exec_insert_spec {throws : LibCall → Bool} {R : Cache K V → Prop}
    {E : LibCall → Cache K V → Prop}
    (h : wp (insert throws key value)
      (fun ref c' => Consistent c'
        ∧ (∃ rest, c'.mElements = ⟨ref, key, value⟩ :: rest) ∧ R c') E c) :
    wp (exec throws (.insert key value)) (fun r c' => r = some value ∧ R c') E c := by
  rw [exec, wp_bind]
  refine wp_mono h ?_ (fun _ _ he => he)
  rintro ref c' ⟨hc', ⟨rest, heq⟩, hR⟩
  rw [wp_bind]
  refine wp_mono (deref_spec [] ⟨ref, key, value⟩ hc'.ids heq) ?_ (fun _ _ he => he)
  rintro m c'' ⟨rfl, rfl⟩
  exact ⟨rfl, hR⟩

theorem exec_insert {R : Cache K V → Prop} {E : LibCall → Cache K V → Prop}
    (h : wp (insert quiet key value)
      (fun ref c' => Consistent c'
        ∧ (∃ rest, c'.mElements = ⟨ref, key, value⟩ :: rest) ∧ R c') E c)
    (hE : ∀ e c', ¬ E e c') :
    ∃ c', exec quiet (.insert key value) c = (.ok (some value), c') ∧ R c' := by
  obtain ⟨r, c', hrun, rfl, hR⟩ := wp_returns (exec_insert_spec h) hE
  exact ⟨c', hrun, hR⟩

theorem exec_insert_new (hcap : 0 < capacity) (h : Sound capacity c) (hkey : key ∉ c.keys)
    (value : V) : ∃ c', exec quiet (.insert key value) c = (.ok (some value), c')
      ∧ Sound capacity c'
      ∧ c'.mElements = ⟨c.nextNode, key, value⟩ :: c.mElements.take (capacity - 1) := by
  have hpos : 0 < c.mCapacity := h.capacity_eq ▸ hcap
  refine exec_insert (wp_mono (insert_new_spec consistent_stable hpos
    (h.consistent.lookup_none.mpr hkey) quiet value (h.consistent.grown hkey value)) ?_
    (fun _ _ he => he)) (fun _ _ he => not_insertFails he.1)
  rintro ref c' ⟨hc', hcap', rfl, heq⟩
  rw [h.capacity_eq] at heq hcap'
  refine ⟨hc', ⟨_, heq⟩, ⟨hc', hcap', ?_⟩, heq⟩
  rw [Cache.size, heq, List.length_cons, List.length_take]
  omega

/-- Making room: only a full cache loses its last node. -/
theorem Sound.take_eq (h : Sound capacity c) : c.mElements.take (capacity - 1)
    = if c.size = c.mCapacity then c.mElements.dropLast else c.mElements := by
  have hfits : c.mElements.length ≤ capacity := h.fits
  rw [h.capacity_eq, Cache.size]
  by_cases hfull : c.mElements.length = capacity
  · rw [if_pos hfull, List.dropLast_eq_take, hfull]
  · rw [if_neg hfull, List.take_of_length_le (by omega)]

variable {pre post : List (Node K V)} {n : Node K V}

/-- Rearranging the nodes keeps the size. -/
theorem Sound.of_length (h : Sound capacity c) {c' : Cache K V} (hc' : Consistent c')
    (hcap : c'.mCapacity = c.mCapacity) (hlen : c'.mElements.length = c.mElements.length) :
    Sound capacity c' :=
  ⟨hc', hcap.trans h.capacity_eq, Nat.le_trans (Nat.le_of_eq hlen) h.fits⟩

omit [DecidableEq K] in
theorem length_moved (heq : c.mElements = pre ++ n :: post) (m : Node K V) :
    (m :: (pre ++ post)).length = c.mElements.length := by
  rw [heq, List.length_cons, List.length_append, List.length_append, List.length_cons]
  omega

theorem exec_insert_present (h : Sound capacity c) (heq : c.mElements = pre ++ n :: post)
    (value : V) : ∃ c', exec quiet (.insert n.key value) c = (.ok (some value), c')
      ∧ Sound capacity c' ∧ c'.mElements = { n with value := value } :: (pre ++ post) := by
  refine exec_insert (wp_mono (insert_present_spec consistent_stable h.consistent heq
    (h.consistent.lookup_eq heq) quiet value) ?_
    (fun _ _ he => he)) (fun _ _ he => Bool.false_ne_true he.1)
  rintro ref c' ⟨hc', rfl, rfl⟩
  exact ⟨hc', ⟨_, rfl⟩, h.of_length hc' rfl (length_moved heq _), rfl⟩

theorem exec_get_present (h : Sound capacity c) (heq : c.mElements = pre ++ n :: post) :
    ∃ c', exec quiet (.get n.key) c = (.ok (some n.value), c')
      ∧ Sound capacity c' ∧ c'.mElements = n :: (pre ++ post) := by
  obtain ⟨r, c', hrun, hc', rfl, rfl⟩ :=
    wp_returns (get_present_spec consistent_stable h.consistent heq (h.consistent.lookup_eq heq)
      quiet) (fun _ _ he => nomatch he.1)
  exact ⟨_, hrun, h.of_length hc' rfl (length_moved heq _), rfl⟩

theorem exec_get_absent (h : Sound capacity c) (hkey : key ∉ c.keys) :
    exec quiet (.get key) c = (.ok none, c) := by
  obtain ⟨r, c', hrun, rfl, rfl⟩ :=
    wp_returns (get_absent_spec (h.consistent.lookup_none.mpr hkey) quiet)
      (fun _ _ he => nomatch he.1)
  exact hrun

theorem Sound.calls (hcap : 0 < capacity) (h : Sound capacity c) : Calls c where
  insert_new key value hkey := by
    obtain ⟨c', hrun, -, heq⟩ := exec_insert_new hcap h hkey value
    exact ⟨c', hrun, by rw [heq, h.take_eq]⟩
  insert_present pre n post value heq := by
    obtain ⟨c', hrun, -, heq'⟩ := exec_insert_present h heq value
    exact ⟨c', hrun, heq'⟩
  get_present pre n post heq := by
    obtain ⟨c', hrun, -, heq'⟩ := exec_get_present h heq
    exact ⟨c', hrun, heq'⟩
  get_absent key hkey := exec_get_absent h hkey

omit [DecidableEq K] in
/-- A present key splits the list at its node. -/
theorem split_of_mem_keys (hkey : key ∈ c.keys) :
    ∃ pre n post, c.mElements = pre ++ n :: post ∧ n.key = key := by
  obtain ⟨n, hn, hk⟩ := List.mem_map.mp hkey
  obtain ⟨pre, post, heq⟩ := List.append_of_mem hn
  exact ⟨pre, n, post, heq, hk⟩

/-- One call keeps the cache sound. -/
theorem Sound.step (hcap : 0 < capacity) (h : Sound capacity c) (op : Op K V) :
    Sound capacity (exec quiet op c).2 := by
  cases op with
  | insert key value =>
      by_cases hkey : key ∈ c.keys
      · obtain ⟨pre, n, post, heq, rfl⟩ := split_of_mem_keys hkey
        obtain ⟨c', hrun, hs, -⟩ := exec_insert_present h heq value
        rw [hrun]
        exact hs
      · obtain ⟨c', hrun, hs, -⟩ := exec_insert_new hcap h hkey value
        rw [hrun]
        exact hs
  | get key =>
      by_cases hkey : key ∈ c.keys
      · obtain ⟨pre, n, post, heq, rfl⟩ := split_of_mem_keys hkey
        obtain ⟨c', hrun, hs, -⟩ := exec_get_present h heq
        rw [hrun]
        exact hs
      · rw [exec_get_absent h hkey]
        exact h

theorem run_sound (hcap : 0 < capacity) {tr : List (Event K V)}
    (h : Run (caches K V capacity) tr c) : Sound capacity c := by
  refine Run.invariant (I := fun _ c => Sound capacity c) ?_ ?_ h
  · rintro c rfl
    exact ⟨consistent_construct capacity, rfl, Nat.zero_le _⟩
  · intro as c a c' _ hs hstep
    have hnext := hs.step hcap a.1
    rw [hstep] at hnext
    exact hnext

/-- Every call can be the next one. -/
theorem run_call {tr : List (Event K V)} (h : Run (caches K V capacity) tr c) (op : Op K V) :
    Run (caches K V capacity) (tr ++ [(op, (exec quiet op c).1)]) (exec quiet op c).2 :=
  .snoc h rfl

/-- **The list and the lookup table never drift apart.**  After any run in which nothing
    throws, keys are distinct, the table has one entry per node and maps each key to the
    node that carries it, the cache is within its capacity, and the next call moves the
    nodes as `Calls` says. -/
theorem runs_keep_structures_together (hcap : 1 ≤ capacity) {tr : List (Event K V)}
    (h : Run (caches K V capacity) tr c) :
    c.keys.Nodup ∧ c.mLookup.keys.Perm c.keys
      ∧ (∀ key pos, c.mLookup.lookup key = some pos
          ↔ ∃ n ∈ c.mElements, n.key = key ∧ n.id = pos)
      ∧ (c.mElements.map Node.id).Nodup
      ∧ c.size ≤ c.mCapacity ∧ c.mCapacity = capacity ∧ Calls c := by
  have hs := run_sound hcap h
  exact ⟨hs.consistent.keys, hs.consistent.keys_perm, hs.consistent.lookup,
    hs.consistent.ids, hs.capacity_eq ▸ hs.fits, hs.capacity_eq, hs.calls hcap⟩

/-- Four calls on a cache of two: the last one evicts key `2`. -/
def evictingCalls : List (Event Nat Nat) :=
  [(.insert 1 10, .ok (some 10)), (.insert 2 20, .ok (some 20)), (.get 1, .ok (some 10)),
    (.insert 3 30, .ok (some 30))]

theorem run_evictingCalls : ∃ c, Run (caches Nat Nat 2) evictingCalls c ∧ c.keys = [3, 1] :=
  ⟨_, run_call (run_call (run_call (run_call (.start rfl) (.insert 1 10)) (.insert 2 20))
    (.get 1)) (.insert 3 30), rfl⟩

theorem evictingCalls_keep_structures_together :
    ∃ c, Run (caches Nat Nat 2) evictingCalls c ∧ c.size ≤ c.mCapacity ∧ Calls c := by
  obtain ⟨c, hrun, -⟩ := run_evictingCalls
  obtain ⟨-, -, -, -, hfits, -, hcalls⟩ := runs_keep_structures_together (by decide) hrun
  exact ⟨c, hrun, hfits, hcalls⟩

end LRUCache
