import CppPlayground.Lib.Progress
import CppPlayground.LRUCache.History
import CppPlayground.LRUCache.References

/-! # `LRUCache`: how long a reference lives

    `insert` returns a reference into a node of the list.  `splice` does not move nodes, and
    an overwriting `insert` assigns to the node that is there, so the reference denotes the
    current value of its key until the key is evicted.  Then it dangles for good: an
    `insert` that brings the key back makes another node. -/

namespace LRUCache

open Program Transition Recency

variable {K V : Type} [DecidableEq K] {c c' : Cache K V} {key : K} {value : V}
  {capacity : Nat} {ref : ListIterator} {P : K → ListIterator → Prop}

/-! ## Nodes keep their identities -/

/-- `ref` is the identity of a node that is there or was, and every node satisfies `P`. -/
structure Nodes (ref : ListIterator) (P : K → ListIterator → Prop) (c : Cache K V) : Prop where
  consistent : Consistent c
  allocated : ref < c.nextNode
  each : ∀ n ∈ c.mElements, P n.key n.id

/-- If a node carries the key, it is `ref`, and `ref` is no other node. -/
abbrev Bound (ref : ListIterator) (key : K) : Cache K V → Prop :=
  Nodes ref fun k pos => k = key ↔ pos = ref

/-- The node `ref` has been destroyed. -/
abbrev Gone (ref : ListIterator) : Cache K V → Prop := Nodes ref fun _ pos => pos ≠ ref

theorem nodes_stable (ref : ListIterator) (P : K → ListIterator → Prop) :
    Stable (Nodes ref P : Cache K V → Prop) where
  ids h := h.consistent.ids
  of_perm {c es} h hp := by
    refine ⟨h.consistent.of_perm hp, h.allocated, ?_⟩
    intro n hn
    obtain ⟨m, hm, hkey, hid⟩ := (mem_of_perm hp n.key n.id).mp ⟨n, hn, rfl, rfl⟩
    have hP := h.each m hm
    rwa [hkey, hid] at hP
  evicted h heq :=
    ⟨h.consistent.evicted heq, h.allocated, fun n hn => h.each n (List.mem_of_mem_dropLast hn)⟩

theorem Nodes.grown (h : Nodes ref P c) (hkey : key ∉ c.keys) (hP : P key c.nextNode)
    (value : V) : Nodes ref P (c.grown key value) where
  consistent := h.consistent.grown hkey value
  allocated := Nat.lt_succ_of_lt h.allocated
  each n hn := by
    rcases List.mem_cons.mp hn with rfl | hold
    · exact hP
    · exact h.each n hold

theorem Nodes.exec_insert (h : wp (insert quiet key value)
    (fun pos c' => Nodes ref P c' ∧ ∃ rest, c'.mElements = ⟨pos, key, value⟩ :: rest)
    (fun _ _ => False) c) : Nodes ref P (exec quiet (.insert key value) c).2 := by
  obtain ⟨c', hrun, hc'⟩ := LRUCache.exec_insert
    (wp_mono h (fun _ _ hq => ⟨hq.1.consistent, hq.2, hq.1⟩) (fun _ _ hf => hf)) (fun _ _ hf => hf)
  rw [hrun]
  exact hc'

/-- One call, where a new node satisfies `P` as well. -/
theorem Nodes.step (hpos : 0 < c.mCapacity) (h : Nodes ref P c) (op : Op K V)
    (hnew : ∀ key value, op = .insert key value → key ∉ c.keys → P key c.nextNode) :
    Nodes ref P (exec quiet op c).2 := by
  have hstable := nodes_stable (K := K) (V := V) ref P
  cases op with
  | insert key value =>
      by_cases hkey : key ∈ c.keys
      · obtain ⟨pre, n, post, heq, rfl⟩ := split_of_mem_keys hkey
        have hspec := insert_present_spec hstable h heq (h.consistent.lookup_eq heq) quiet value
        refine Nodes.exec_insert (wp_mono hspec ?_ fun _ _ he => Bool.false_ne_true he.1)
        rintro _ c' ⟨hc', rfl, rfl⟩
        exact ⟨hc', _, rfl⟩
      · have hspec := insert_new_spec hstable hpos (h.consistent.lookup_none.mpr hkey) quiet value
          (h.grown hkey (hnew key value rfl hkey) value)
        refine Nodes.exec_insert (wp_mono hspec ?_ fun _ _ he => not_insertFails he.1)
        rintro _ c' ⟨hc', -, rfl, heq⟩
        exact ⟨hc', _, heq⟩
  | get key =>
      by_cases hkey : key ∈ c.keys
      · obtain ⟨pre, n, post, heq, rfl⟩ := split_of_mem_keys hkey
        obtain ⟨_, c', hrun, hc', -⟩ := wp_returns
          (get_present_spec hstable h heq (h.consistent.lookup_eq heq) quiet)
          (fun _ _ he => nomatch he.1)
        rw [show exec quiet (.get n.key) c = _ from hrun]
        exact hc'
      · obtain ⟨_, c', hrun, -, rfl⟩ := wp_returns
          (get_absent_spec (h.consistent.lookup_none.mpr hkey) quiet)
          (fun _ _ he => nomatch he.1)
        rw [show exec quiet (.get key) c' = _ from hrun]
        exact h

/-- The node of a key in the cache keeps it through a call, if it is there after it. -/
theorem Bound.step (hpos : 0 < c.mCapacity) (h : Bound ref key c) (hkey : key ∈ c.keys)
    (op : Op K V) : Bound ref key (exec quiet op c).2 := by
  refine Nodes.step hpos h op ?_
  intro key' value' _ hkey'
  exact iff_of_false (fun heq => hkey' (heq ▸ hkey)) (Nat.ne_of_gt h.allocated)

/-- A destroyed node does not come back. -/
theorem Gone.step (hpos : 0 < c.mCapacity) (h : Gone ref c) (op : Op K V) :
    Gone ref (exec quiet op c).2 :=
  Nodes.step hpos h op fun _ _ _ _ => Nat.ne_of_gt h.allocated

theorem Bound.gone (h : Bound ref key c) (hkey : key ∉ c.keys) : Gone ref c :=
  ⟨h.consistent, h.allocated, fun n hn hid =>
    hkey (List.mem_map.mpr ⟨n, hn, (h.each n hn).mpr hid⟩)⟩

theorem Gone.node (h : Gone ref c) : c.node ref = none :=
  List.find?_eq_none.mpr fun n hn => by simpa using h.each n hn

/-- A node that is there is the one of its key. -/
theorem Consistent.bound (h : Consistent c) {n : Node K V} (hn : n ∈ c.mElements) :
    Bound n.id n.key c where
  consistent := h
  allocated := h.fresh n hn
  each m hm := by
    constructor
    · exact fun hkey => congrArg Node.id (List.inj_on_of_nodup_map h.keys hm hn hkey)
    · exact fun hid => congrArg Node.key (List.inj_on_of_nodup_map h.ids hm hn hid)

/-! ## The reference -/

/-- At every moment from the end of `past` to the end of `later`, fewer than `capacity`
    other keys had been touched since the last touch of the key. -/
def Stays (capacity : Nat) (key : K) (past : List (Event K V)) : List (Event K V) → Prop
  | [] => (since key (touches past)).card < capacity
  | a :: later => (since key (touches past)).card < capacity
      ∧ Stays capacity key (a :: past) later

instance (capacity : Nat) (key : K) : (past later : List (Event K V)) →
    Decidable (Stays capacity key past later)
  | past, [] => inferInstanceAs (Decidable ((since key (touches past)).card < capacity))
  | past, a :: later =>
      have := instDecidableStays capacity key (a :: past) later
      inferInstanceAs (Decidable (_ ∧ Stays capacity key (a :: past) later))

variable {past later : List (Event K V)}

theorem Stays.now (h : Stays capacity key past later) :
    (since key (touches past)).card < capacity := by
  cases later with
  | nil => exact h
  | cons a later => exact h.1

/-- A key that has been touched is in the cache as long as few others have been. -/
theorem Follows.mem_keys (h : Follows capacity past c) (htouched : key ∈ touches past) :
    key ∈ c.keys ↔ (since key (touches past)).card < capacity := by
  rw [h.keys_eq, mem_take_recency_iff]
  exact and_iff_right htouched

/-- The reference to the node of a key in the cache. -/
theorem Follows.node (h : Follows capacity past c) (hbound : Bound ref key c)
    (hkey : key ∈ c.keys) :
    c.node ref = (lastInserted key past).map fun value => ⟨ref, key, value⟩ := by
  obtain ⟨pre, n, post, heq, rfl⟩ := split_of_mem_keys hkey
  have hn : n ∈ c.mElements := by
    rw [heq]
    exact List.mem_append_right _ (List.mem_cons_self ..)
  obtain rfl := (hbound.each n hn).mp rfl
  rw [node_eq hbound.consistent.ids heq, h.values n hn]
  rfl

omit [DecidableEq K] in
theorem mem_touches_cons (htouched : key ∈ touches past) (a : Event K V) :
    key ∈ touches (a :: past) := by
  cases ha : touched a with
  | none => rwa [touches, List.filterMap_cons_none ha]
  | some k =>
      rw [touches, List.filterMap_cons_some ha]
      exact List.mem_cons_of_mem _ htouched

/-- From a state in which `ref` can only be the node of the key. -/
theorem Follows.path (hcap : 0 < capacity) (h : Follows capacity past c)
    (hbound : Bound ref key c) (htouched : key ∈ touches past)
    (hpath : Path (caches K V capacity) c later c') :
    c'.node ref = if Stays capacity key past later then
      (lastInserted key (later.reverse ++ past)).map fun value => ⟨ref, key, value⟩
    else none := by
  induction hpath generalizing past with
  | refl c =>
      by_cases hkey : key ∈ c.keys
      · rw [if_pos (show Stays capacity key past [] from (h.mem_keys htouched).mp hkey)]
        exact h.node hbound hkey
      · have hleft : ¬ Stays capacity key past [] :=
          fun hstays => hkey ((h.mem_keys htouched).mpr hstays)
        rw [if_neg hleft]
        exact (hbound.gone hkey).node
  | @cons c c₁ c' a later hstep hpath ih =>
      have hpos : 0 < c.mCapacity := h.sound.capacity_eq ▸ hcap
      have hexec : exec quiet a.1 c = (a.2, c₁) := hstep
      by_cases hkey : key ∈ c.keys
      · have hnext := h.step hcap a.1
        have hbound₁ := Bound.step hpos hbound hkey a.1
        rw [hexec] at hnext hbound₁
        rw [ih hnext hbound₁ (mem_touches_cons htouched a), List.reverse_cons,
          List.append_assoc]
        refine if_congr ?_ rfl rfl
        exact (and_iff_right ((h.mem_keys htouched).mp hkey)).symm
      · rw [if_neg fun hstays => hkey ((h.mem_keys htouched).mpr hstays.now)]
        -- the node is gone before the rest of the calls, and so it is after them
        have hkeep : ∀ c b c', Sound capacity c ∧ Gone ref c → True →
            (caches K V capacity).step c b c' → Sound capacity c' ∧ Gone ref c' := by
          rintro c b c' ⟨hs, hgone⟩ - hstep
          have hnext := hs.step hcap b.1
          have hgone' := Gone.step (hs.capacity_eq ▸ hcap) hgone b.1
          rw [show exec quiet b.1 c = (b.2, c') from hstep] at hnext hgone'
          exact ⟨hnext, hgone'⟩
        exact ((Path.cons hstep hpath).invariant (fun _ _ => trivial) hkeep
          ⟨h.sound, hbound.gone hkey⟩).2.node

/-- **How long a reference lives.**  Let `insert` return a reference after any run, and let
    any calls follow.  Then the reference denotes the value inserted last under its key if
    at no moment `capacity` other keys had been touched since the last touch of the key,
    and it dangles otherwise. -/
theorem reference_lives (hcap : 1 ≤ capacity) {tr : List (Event K V)}
    (h : Run (caches K V capacity) tr c) {c₁ c₂ : Cache K V}
    (hinsert : insert quiet key value c = (.ok ref, c₁))
    (hpath : Path (caches K V capacity) c₁ later c₂) :
    c₂.node ref = if Stays capacity key ((.insert key value, .ok (some value)) :: tr.reverse) later
      then (lastInserted key (later.reverse
        ++ (.insert key value, .ok (some value)) :: tr.reverse)).map fun v => ⟨ref, key, v⟩
      else none := by
  have hf := run_follows hcap h
  obtain ⟨_, c₁, hrun, hnode, -⟩ := wp_returns (hf.sound.consistent.findable.insert_spec
    (hf.sound.capacity_eq ▸ hcap) quiet key value) (fun _ _ he => Bool.false_ne_true he.1)
  obtain ⟨href, rfl⟩ := Prod.mk.inj (hrun.symm.trans hinsert)
  rw [Outcome.ok.inj href] at hnode
  -- the event is that of `exec`, which reads the value through the reference
  have hexec : exec quiet (.insert key value) c = (.ok (some value), c₁) := by
    have hderef : deref ref c₁ = (.ok ⟨ref, key, value⟩, c₁) := access_ok_iff.mpr ⟨hnode, rfl⟩
    exact (bind_of_ok hinsert).trans (bind_of_ok hderef)
  have hnext := hf.step hcap (.insert key value)
  rw [hexec] at hnext
  refine hnext.path hcap ?_ (List.mem_cons_self ..) hpath
  exact hnext.sound.consistent.bound (List.mem_of_find?_eq_some hnode)

/-- Every call can be the first one. -/
theorem path_call (op : Op K V) (h : Path (caches K V capacity) (exec quiet op c).2 later c') :
    Path (caches K V capacity) c ((op, (exec quiet op c).1) :: later) c' :=
  .cons rfl h

/-- In a cache of two: the reference to key `1` sees its value change while key `2` comes and
    is read; otherwise key `3` evicts key `1`, whose return does not bring the node back. -/
theorem reference_lives_and_dies :
    ∃ c₁ c₂ c₃, insert quiet 1 10 (Cache.construct 2) = (.ok 0, c₁)
      ∧ Path (caches Nat Nat 2) c₁ [(.insert 2 20, .ok (some 20)), (.insert 1 11, .ok (some 11)),
          (.get 2, .ok (some 20))] c₂
      ∧ c₂.node 0 = some ⟨0, 1, 11⟩
      ∧ Path (caches Nat Nat 2) c₁ [(.insert 2 20, .ok (some 20)), (.insert 3 30, .ok (some 30)),
          (.insert 1 12, .ok (some 12))] c₃
      ∧ c₃.node 0 = none := by
  have hlives : Path (caches Nat Nat 2) (insert quiet 1 10 (Cache.construct 2)).2 _ _ :=
    path_call (.insert 2 20) (path_call (.insert 1 11) (path_call (.get 2) (.refl _)))
  have hdies : Path (caches Nat Nat 2) (insert quiet 1 10 (Cache.construct 2)).2 _ _ :=
    path_call (.insert 2 20) (path_call (.insert 3 30) (path_call (.insert 1 12) (.refl _)))
  exact ⟨_, _, _, rfl, hlives, reference_lives (by decide) (.start rfl) rfl hlives,
    hdies, reference_lives (by decide) (.start rfl) rfl hdies⟩

end LRUCache
