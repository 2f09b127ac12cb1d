import CppPlayground.LRUCache.History
import CppPlayground.Lib.Paging

/-! # `LRUCache`: how many nodes it has to build

    A call builds a node exactly if it touches a key that is not among the `capacity` keys
    touched last, so the nodes built over a run are the loads that `Lib.Paging` counts, and
    `runs_competitive` compares them with the loads of any other cache that has to hold
    each key when it is touched. -/

namespace LRUCache

open Program Transition Recency Paging

variable {K V : Type} [DecidableEq K] {capacity m : Nat} {past : List (Event K V)}
  {c : Cache K V} {key : K}

/-- The nodes built so far survive what the calls do to nodes that are there. -/
theorem built_stable (m : Nat) :
    Stable fun c : Cache K V => Consistent c ∧ c.nextNode = m where
  ids h := h.1.ids
  of_perm h hp := ⟨h.1.of_perm hp, h.2⟩
  evicted h heq := ⟨h.1.evicted heq, h.2⟩

theorem built_insert_new (hcap : 0 < capacity) (h : Sound capacity c) (hkey : key ∉ c.keys)
    (value : V) : (exec quiet (.insert key value) c).2.nextNode = c.nextNode + 1 := by
  have hpos : 0 < c.mCapacity := h.capacity_eq ▸ hcap
  have hspec := insert_new_spec (built_stable (c.nextNode + 1)) hpos
    (h.consistent.lookup_none.mpr hkey) quiet value ⟨h.consistent.grown hkey value, rfl⟩
  obtain ⟨c', hrun, hbuilt⟩ := exec_insert (R := fun c' => c'.nextNode = c.nextNode + 1)
    (wp_mono hspec (fun ref c' hc' => ⟨hc'.1.1, ⟨_, hc'.2.2.1 ▸ hc'.2.2.2⟩, hc'.1.2⟩)
      (fun _ _ he => he)) (fun _ _ he => not_insertFails he.1)
  rw [hrun]
  exact hbuilt

section Present

variable {pre post : List (Node K V)} {n : Node K V}

theorem built_insert_present (h : Sound capacity c) (heq : c.mElements = pre ++ n :: post)
    (value : V) : (exec quiet (.insert n.key value) c).2.nextNode = c.nextNode := by
  have hspec := insert_present_spec consistent_stable h.consistent heq
    (h.consistent.lookup_eq heq) quiet value
  obtain ⟨c', hrun, hbuilt⟩ := exec_insert (R := fun c' => c'.nextNode = c.nextNode)
    (wp_mono hspec (by rintro ref c' ⟨hc', rfl, rfl⟩; exact ⟨hc', ⟨_, rfl⟩, rfl⟩)
      (fun _ _ he => he)) (fun _ _ he => Bool.false_ne_true he.1)
  rw [hrun]
  exact hbuilt

theorem built_get_present (h : Sound capacity c) (heq : c.mElements = pre ++ n :: post) :
    (exec quiet (.get n.key) c).2.nextNode = c.nextNode := by
  obtain ⟨r, c', hrun, -, -, rfl⟩ :=
    wp_returns (get_present_spec consistent_stable h.consistent heq (h.consistent.lookup_eq heq)
      quiet) (fun _ _ he => Bool.false_ne_true he.1)
  exact congrArg (fun p => p.2.nextNode) hrun

end Present

/-- One call builds a node exactly if the key it touches is not in the cache. -/
theorem Follows.built (hcap : 0 < capacity) (h : Follows capacity past c)
    (hbuilt : c.nextNode = faults capacity (touches past)) (op : Op K V) :
    (exec quiet op c).2.nextNode
      = faults capacity (touches ((op, (exec quiet op c).1) :: past)) := by
  cases op with
  | insert key value =>
      show _ = faults capacity (key :: touches past)
      rw [faults, ← hbuilt, ← h.keys_eq]
      by_cases hkey : key ∈ c.keys
      · rw [if_pos hkey]
        obtain ⟨pre, n, post, heq, rfl⟩ := split_of_mem_keys hkey
        exact built_insert_present h.sound heq value
      · rw [if_neg hkey]
        exact built_insert_new hcap h.sound hkey value
  | get key =>
      by_cases hkey : key ∈ c.keys
      · obtain ⟨pre, n, post, heq, rfl⟩ := split_of_mem_keys hkey
        obtain ⟨c', hrun, -⟩ := exec_get_present h.sound heq
        rw [built_get_present h.sound heq, hrun]
        show _ = faults capacity (n.key :: touches past)
        rw [faults, ← hbuilt, ← h.keys_eq, if_pos hkey, Nat.add_zero]
      · -- a miss touches nothing and builds nothing
        rw [exec_get_absent h.sound hkey]
        exact hbuilt

/-- The nodes built are the loads of a cache that keeps the keys touched last. -/
theorem run_built (hcap : 0 < capacity) {tr : List (Event K V)}
    (h : Run (caches K V capacity) tr c) :
    c.nextNode = faults capacity (touches tr.reverse) := by
  refine Run.invariant (I := fun tr c =>
    c.nextNode = faults capacity (touches tr.reverse)) ?_ ?_ h
  · rintro c rfl
    rfl
  · rintro as c ⟨op, out⟩ c' hrun hbuilt hstep
    have hnext := (run_follows hcap hrun).built hcap hbuilt op
    rw [show exec quiet op c = (out, c') from hstep] at hnext
    rw [List.reverse_append]
    exact hnext

/-- **The cache is competitive.**  Take any run in which nothing throws, and any other way to
    serve its touches, with room for `d` keys and foresight if need be.  As often as the run
    builds `capacity` nodes, the other one loads at least `capacity + 1 - d` keys. -/
theorem runs_competitive (hcap : 1 ≤ capacity) {tr : List (Event K V)}
    (h : Run (caches K V capacity) tr c) {d loads : Nat} {M : Finset K}
    (hs : Serves d (touches tr.reverse) M loads) :
    c.nextNode / capacity * (capacity + 1 - d) ≤ loads := by
  rw [run_built hcap h]
  exact competitive hs

/-- Three keys in turn: the cache of two has dropped each of them when it comes back. -/
def cyclingCalls : List (Event Nat Nat) :=
  [1, 2, 3, 1, 2, 3].map fun key => (.insert key key, .ok (some key))

theorem cyclingCalls_competitive : ∃ c, Run (caches Nat Nat 2) cyclingCalls c
    ∧ c.nextNode = 6 ∧ Serves 2 (touches cyclingCalls.reverse) {2, 3} 4 ∧ 6 / 2 * 1 ≤ 4 := by
  obtain ⟨c, hrun, hbuilt⟩ : ∃ c, Run (caches Nat Nat 2) cyclingCalls c ∧ c.nextNode = 6 :=
    ⟨_, run_call (run_call (run_call (run_call (run_call (run_call (.start rfl) (.insert 1 1))
      (.insert 2 2)) (.insert 3 3)) (.insert 1 1)) (.insert 2 2)) (.insert 3 3), rfl⟩
  -- it keeps the key that comes back first
  have hserves : Serves 2 (touches cyclingCalls.reverse) {2, 3} 4 := by
    have h₁ := Serves.start.touch (d := 2) 1 {1} (by decide) (by decide)
    have h₂ := h₁.touch 2 {1, 2} (by decide) (by decide)
    have h₃ := h₂.touch 3 {1, 3} (by decide) (by decide)
    have h₄ := h₃.touch 1 {1, 3} (by decide) (by decide)
    have h₅ := h₄.touch 2 {2, 3} (by decide) (by decide)
    exact h₅.touch 3 {2, 3} (by decide) (by decide)
  have hle := runs_competitive (by decide) hrun hserves
  rw [hbuilt] at hle
  exact ⟨c, hrun, hbuilt, hserves, hle⟩

end LRUCache
