import CppPlayground.Lib.Recency
import CppPlayground.LRUCache.Invariant

/-! # `LRUCache`: the LRU law over the whole history

    The answer of `get` in terms of the calls made so far, without looking at the cache.
    A past is a list of events, the latest first.  The recency list of the cache is the
    recency list of the touches cut off at the capacity (`Follows`), and the LRU law of
    `Lib.Recency` turns membership in it into a count. -/

namespace LRUCache

open Program Transition Recency

variable {K V : Type} [DecidableEq K]

/-- The key an event touches: an `insert` its key, a `get` its key if it hit. -/
def touched : Event K V → Option K
  | (.insert key _, _) => some key
  | (.get key, .ok (some _)) => some key
  | (.get _, _) => none

/-- The touches of a past, the latest first. -/
def touches (past : List (Event K V)) : List K := past.filterMap touched

/-- The value passed to the latest `insert` of a key. -/
def lastInserted (key : K) : List (Event K V) → Option V
  | [] => none
  | (.insert key' value, _) :: past => if key' = key then some value else lastInserted key past
  | (.get _, _) :: past => lastInserted key past

/-- An inserted key was touched. -/
theorem mem_touches_of_lastInserted {key : K} {value : V} {past : List (Event K V)}
    (h : lastInserted key past = some value) : key ∈ touches past := by
  induction past with
  | nil => exact nomatch h
  | cons a past ih =>
      obtain ⟨op, out⟩ := a
      cases op with
      | insert key' value' =>
          by_cases hk : key' = key
          · rw [hk]
            exact List.mem_cons_self ..
          · rw [lastInserted, if_neg hk] at h
            exact List.mem_cons_of_mem _ (ih h)
      | get key' =>
          -- a `get` inserts nothing, but it may count as a touch
          have hmem := ih h
          cases hout : touched (.get key', out) with
          | none =>
              rw [touches, List.filterMap_cons_none hout]
              exact hmem
          | some k =>
              rw [touches, List.filterMap_cons_some hout]
              exact List.mem_cons_of_mem _ hmem

/-- The cache holds the keys touched last, with the values inserted last. -/
structure Follows (capacity : Nat) (past : List (Event K V)) (c : Cache K V) : Prop where
  sound : Sound capacity c
  keys_eq : c.keys = (recency (touches past)).take capacity
  values : ∀ n ∈ c.mElements, lastInserted n.key past = some n.value

variable {capacity : Nat} {past : List (Event K V)} {c : Cache K V} {key : K} {value : V}

/-- The keys without one node. -/
theorem keys_without (h : Consistent c) {pre post : List (Node K V)} {n : Node K V}
    (heq : c.mElements = pre ++ n :: post) :
    (pre ++ post).map Node.key = c.keys.erase n.key
      ∧ ∀ m ∈ pre ++ post, m.key ≠ n.key := by
  have hkeys := h.keys
  rw [Cache.keys, heq, List.map_append, List.map_cons] at hkeys
  have hnot : n.key ∉ (pre ++ post).map Node.key := by
    rw [List.map_append]
    exact (List.nodup_middle.mp hkeys |> List.nodup_cons.mp).1
  refine ⟨?_, fun m hm hk => hnot (hk ▸ List.mem_map_of_mem hm)⟩
  rw [List.map_append, List.mem_append, not_or] at hnot
  rw [Cache.keys, heq, List.map_append, List.map_append, List.map_cons,
    List.erase_append_right _ hnot.1, List.erase_cons_head]

/-- A touch of a key in the cache. -/
theorem Follows.touch (h : Follows capacity past c) {pre post : List (Node K V)}
    {n : Node K V} (heq : c.mElements = pre ++ n :: post) :
    (recency (n.key :: touches past)).take capacity
      = n.key :: (pre ++ post).map Node.key := by
  have hmem : n.key ∈ c.keys := List.mem_map.mpr ⟨n, by rw [heq]; simp, rfl⟩
  rw [h.keys_eq] at hmem
  rw [(keys_without h.sound.consistent heq).1, h.keys_eq]
  exact take_touch_of_mem capacity hmem

theorem Follows.insert_new (hcap : 0 < capacity) (h : Follows capacity past c)
    (hkey : key ∉ c.keys) (value : V) : ∃ c',
    exec quiet (.insert key value) c = (.ok (some value), c')
      ∧ Follows capacity ((.insert key value, .ok (some value)) :: past) c' := by
  obtain ⟨c', hrun, hs, heq⟩ := exec_insert_new hcap h.sound hkey value
  obtain ⟨m, rfl⟩ : ∃ m, capacity = m + 1 := ⟨capacity - 1, by omega⟩
  refine ⟨c', hrun, hs, ?_, ?_⟩
  · -- a new key pushes out the last of the keys, if there are `capacity` of them
    have hnot : key ∉ (recency (touches past)).take (m + 1) := h.keys_eq ▸ hkey
    show c'.keys = (key :: (recency (touches past)).erase key).take (m + 1)
    rw [take_touch_of_not_mem m hnot, Cache.keys, heq, List.map_cons, List.map_take,
      Nat.add_sub_cancel]
    show key :: c.keys.take m = _
    rw [h.keys_eq, List.take_take, Nat.min_eq_left (Nat.le_succ m)]
  · intro n hn
    rw [heq] at hn
    rcases List.mem_cons.mp hn with rfl | hmem
    · exact if_pos rfl
    · have hold := List.mem_of_mem_take hmem
      have hne : ¬ key = n.key := fun hk => hkey (hk ▸ List.mem_map_of_mem hold)
      rw [lastInserted, if_neg hne]
      exact h.values n hold

section Present

variable {pre post : List (Node K V)} {n : Node K V}

theorem Follows.insert_present (h : Follows capacity past c)
    (heq : c.mElements = pre ++ n :: post) (value : V) : ∃ c',
    exec quiet (.insert n.key value) c = (.ok (some value), c')
      ∧ Follows capacity ((.insert n.key value, .ok (some value)) :: past) c' := by
  obtain ⟨c', hrun, hs, heq'⟩ := exec_insert_present h.sound heq value
  refine ⟨c', hrun, hs, ?_, ?_⟩
  · rw [Cache.keys, heq']
    exact (h.touch heq).symm
  · intro m hm
    rw [heq'] at hm
    rcases List.mem_cons.mp hm with rfl | hmem
    · exact if_pos rfl
    · have hne := (keys_without h.sound.consistent heq).2 m hmem
      rw [lastInserted, if_neg hne.symm]
      refine h.values m ?_
      rw [heq]
      rcases List.mem_append.mp hmem with hpre | hpost
      · exact List.mem_append_left _ hpre
      · exact List.mem_append_right _ (List.mem_cons_of_mem _ hpost)

theorem Follows.get_present (h : Follows capacity past c)
    (heq : c.mElements = pre ++ n :: post) : ∃ c',
    exec quiet (.get n.key) c = (.ok (some n.value), c')
      ∧ Follows capacity ((.get n.key, .ok (some n.value)) :: past) c' := by
  obtain ⟨c', hrun, hs, heq'⟩ := exec_get_present h.sound heq
  refine ⟨c', hrun, hs, ?_, ?_⟩
  · rw [Cache.keys, heq']
    exact (h.touch heq).symm
  · intro m hm
    refine h.values m ?_
    rw [heq'] at hm
    rw [heq]
    exact (List.perm_middle.symm).mem_iff.mp hm

end Present

/-- One call. -/
theorem Follows.step (hcap : 0 < capacity) (h : Follows capacity past c) (op : Op K V) :
    Follows capacity ((op, (exec quiet op c).1) :: past) (exec quiet op c).2 := by
  cases op with
  | insert key value =>
      by_cases hkey : key ∈ c.keys
      · obtain ⟨pre, n, post, heq, rfl⟩ := split_of_mem_keys hkey
        obtain ⟨c', hrun, hf⟩ := h.insert_present heq value
        rw [hrun]
        exact hf
      · obtain ⟨c', hrun, hf⟩ := h.insert_new hcap hkey value
        rw [hrun]
        exact hf
  | get key =>
      by_cases hkey : key ∈ c.keys
      · obtain ⟨pre, n, post, heq, rfl⟩ := split_of_mem_keys hkey
        obtain ⟨c', hrun, hf⟩ := h.get_present heq
        rw [hrun]
        exact hf
      · -- a miss touches nothing
        rw [exec_get_absent h.sound hkey]
        exact ⟨h.sound, h.keys_eq, h.values⟩

/-- The cache follows every run. -/
theorem run_follows (hcap : 0 < capacity) {tr : List (Event K V)}
    (h : Run (caches K V capacity) tr c) : Follows capacity tr.reverse c := by
  refine Run.invariant (I := fun tr c => Follows capacity tr.reverse c) ?_ ?_ h
  · rintro c rfl
    exact ⟨⟨consistent_construct capacity, rfl, Nat.zero_le _⟩, (List.take_nil).symm,
      fun n hn => nomatch hn⟩
  · rintro as c ⟨op, out⟩ c' _ hf hstep
    have hnext := hf.step hcap op
    rw [show exec quiet op c = (out, c') from hstep] at hnext
    rw [List.reverse_append]
    exact hnext

/-- **The LRU law.**  After any run from an empty cache, `get key` answers with the value
    inserted last under `key` if fewer than `capacity` other keys have been touched since
    the last touch of `key`, and with `nullopt` otherwise, also if `key` was never
    inserted. -/
theorem get_obeys_history (hcap : 1 ≤ capacity) {tr : List (Event K V)}
    (h : Run (caches K V capacity) tr c) (key : K) :
    (exec quiet (.get key) c).1
      = .ok (if (since key (touches tr.reverse)).card < capacity
          then lastInserted key tr.reverse else none) := by
  have hf := run_follows hcap h
  have hlaw := mem_take_recency_iff (k := key) (touches tr.reverse) capacity
  rw [← hf.keys_eq] at hlaw
  by_cases hkey : key ∈ c.keys
  · obtain ⟨-, hcount⟩ := hlaw.mp hkey
    obtain ⟨pre, n, post, heq, rfl⟩ := split_of_mem_keys hkey
    obtain ⟨c', hrun, -⟩ := hf.get_present heq
    rw [hrun, if_pos hcount, hf.values n (by rw [heq]; simp)]
  · rw [exec_get_absent hf.sound hkey]
    by_cases hcount : (since key (touches tr.reverse)).card < capacity
    · -- then the key was never touched, and so never inserted
      rw [if_pos hcount]
      cases hlast : lastInserted key tr.reverse with
      | none => rfl
      | some value =>
          exact absurd (hlaw.mpr ⟨mem_touches_of_lastInserted hlast, hcount⟩) hkey
    · rw [if_neg hcount]

theorem evictingCalls_get : ∃ c, Run (caches Nat Nat 2) evictingCalls c
    ∧ (exec quiet (.get 2) c).1 = .ok none ∧ (exec quiet (.get 1) c).1 = .ok (some 10) := by
  obtain ⟨c, hrun, -⟩ := run_evictingCalls
  exact ⟨c, hrun, get_obeys_history (by decide) hrun 2, get_obeys_history (by decide) hrun 1⟩

end LRUCache
