import CppPlayground.Lib.Inclusion
import CppPlayground.LRUCache.Invariant

/-! # `LRUCache`: a larger cache never does worse

    Two caches that see the same calls do not take the same steps: a `get` may promote in
    one and miss in the other, an `insert` may overwrite in one and evict in the other.
    `Lockstep` relates their recency lists all the same, call by call. -/

namespace LRUCache

open Program Transition Inclusion

variable {K V : Type} [DecidableEq K]

/-- The recency list, as keys and values. -/
def Cache.entries (c : Cache K V) : List (K × V) :=
  c.mElements.map fun n => (n.key, n.value)

variable {c c₁ c₂ : Cache K V} {key : K} {value : V} {capacity small large : Nat}

omit [DecidableEq K] in
theorem map_entries (c : Cache K V) : c.entries.map Prod.fst = c.keys := List.map_map

omit [DecidableEq K] in
theorem length_entries (c : Cache K V) : c.entries.length = c.size := List.length_map _

theorem Sound.entries_nodup (h : Sound capacity c) : (c.entries.map Prod.fst).Nodup := by
  rw [map_entries]
  exact h.consistent.keys

theorem Sound.entries_le (h : Sound capacity c) : c.entries.length ≤ capacity := by
  rw [length_entries]
  exact h.fits

/-- The other entries. -/
theorem Consistent.without_entries (h : Consistent c) {pre post : List (Node K V)}
    {n : Node K V} (heq : c.mElements = pre ++ n :: post) :
    without n.key c.entries = (pre ++ post).map fun m => (m.key, m.value) := by
  have hkeys := h.keys
  rw [Cache.keys, heq, List.map_append, List.map_cons] at hkeys
  have hnot := (List.nodup_cons.mp (List.nodup_middle.mp hkeys)).1
  rw [← List.map_append] at hnot
  have hrest : ∀ e ∈ (pre ++ post).map fun m => (m.key, m.value), e.1 ≠ n.key := by
    intro e he hk
    obtain ⟨m, hm, rfl⟩ := List.mem_map.mp he
    exact hnot (hk ▸ List.mem_map_of_mem hm)
  rw [List.map_append] at hrest ⊢
  rw [without, Cache.entries, heq, List.map_append, List.map_cons, List.filter_append,
    List.filter_cons_of_neg (by simp), ← List.filter_append]
  exact List.filter_eq_self.mpr fun e he => decide_eq_true (hrest e he)

/-- `insert` on the recency list, of a new key or of one that is there. -/
theorem exec_insert_entries (hcap : 0 < capacity) (h : Sound capacity c) (key : K)
    (value : V) : ∃ c', exec quiet (.insert key value) c = (.ok (some value), c')
      ∧ Sound capacity c' ∧ c'.entries = (toFront key value c.entries).take capacity := by
  by_cases hkey : key ∈ c.keys
  · obtain ⟨pre, n, post, heq, rfl⟩ := split_of_mem_keys hkey
    obtain ⟨c', hrun, hs, heq'⟩ := exec_insert_present h heq value
    have hentries : c'.entries = toFront n.key value c.entries := by
      rw [toFront, h.consistent.without_entries heq, Cache.entries, heq', List.map_cons]
    refine ⟨c', hrun, hs, ?_⟩
    rw [← hentries, List.take_of_length_le hs.entries_le]
  · obtain ⟨c', hrun, hs, heq⟩ := exec_insert_new hcap h hkey value
    obtain ⟨m, rfl⟩ : ∃ m, capacity = m + 1 := ⟨capacity - 1, by omega⟩
    refine ⟨c', hrun, hs, ?_⟩
    rw [toFront, without_of_not_mem (map_entries c ▸ hkey), List.take_succ_cons,
      Cache.entries, heq, List.map_cons, List.map_take, Nat.add_sub_cancel, Cache.entries]

/-- `get` of a key that is there. -/
theorem exec_get_entries (h : Sound capacity c) (hmem : (key, value) ∈ c.entries) :
    ∃ c', exec quiet (.get key) c = (.ok (some value), c') ∧ Sound capacity c'
      ∧ c'.entries = toFront key value c.entries := by
  obtain ⟨n, hn, hentry⟩ := List.mem_map.mp hmem
  obtain ⟨rfl, rfl⟩ := Prod.mk.inj hentry
  obtain ⟨pre, post, heq⟩ := List.append_of_mem hn
  obtain ⟨c', hrun, hs, heq'⟩ := exec_get_present h heq
  refine ⟨c', hrun, hs, ?_⟩
  rw [toFront, h.consistent.without_entries heq, Cache.entries, heq', List.map_cons]

omit [DecidableEq K] in
theorem exists_entry (hkey : key ∈ c.keys) : ∃ value, (key, value) ∈ c.entries := by
  obtain ⟨n, hn, rfl⟩ := List.mem_map.mp hkey
  exact ⟨n.value, List.mem_map_of_mem hn⟩

/-! ## Two caches, the same calls -/

/-- What the caches have in common after the same calls. -/
structure Lockstep (small large : Nat) (c₁ c₂ : Cache K V) : Prop where
  sound₁ : Sound small c₁
  sound₂ : Sound large c₂
  includes : Includes small c₁.entries c₂.entries

/-- A call of the smaller cache and the same call of the larger one: what the smaller one
    finds, the larger one finds too. -/
def Agrees (e₁ e₂ : Event K V) : Prop :=
  e₁.1 = e₂.1 ∧ ∀ key value, e₁ = (.get key, .ok (some value)) → e₂ = e₁

theorem Lockstep.insert (hcap : 0 < small) (hle : small ≤ large)
    (h : Lockstep small large c₁ c₂) (key : K) (value : V) :
    Lockstep small large (exec quiet (.insert key value) c₁).2
      (exec quiet (.insert key value) c₂).2 := by
  obtain ⟨c₁', hrun₁, hs₁, heq₁⟩ := exec_insert_entries hcap h.sound₁ key value
  obtain ⟨c₂', hrun₂, hs₂, heq₂⟩ :=
    exec_insert_entries (Nat.lt_of_lt_of_le hcap hle) h.sound₂ key value
  rw [hrun₁, hrun₂]
  refine ⟨hs₁, hs₂, ?_⟩
  rw [heq₁, heq₂]
  exact h.includes.insert hle h.sound₁.entries_nodup h.sound₁.entries_le
    h.sound₂.entries_le key value

/-- The key is in both caches, in the larger one only, or in neither. -/
theorem Lockstep.get (h : Lockstep small large c₁ c₂) (key : K) :
    Lockstep small large (exec quiet (.get key) c₁).2 (exec quiet (.get key) c₂).2
      ∧ ∀ value, (exec quiet (.get key) c₁).1 = .ok (some value) →
        (exec quiet (.get key) c₂).1 = .ok (some value) := by
  by_cases hkey₁ : key ∈ c₁.keys
  · obtain ⟨value, hmem⟩ := exists_entry hkey₁
    obtain ⟨c₁', hrun₁, hs₁, heq₁⟩ := exec_get_entries h.sound₁ hmem
    obtain ⟨c₂', hrun₂, hs₂, heq₂⟩ :=
      exec_get_entries h.sound₂ (h.includes.sublist.mem hmem)
    rw [hrun₁, hrun₂]
    refine ⟨⟨hs₁, hs₂, ?_⟩, fun _ hvalue => hvalue⟩
    rw [heq₁, heq₂]
    exact h.includes.touch h.sound₁.entries_nodup value
  · rw [exec_get_absent h.sound₁ hkey₁]
    refine ⟨?_, fun _ hvalue => nomatch hvalue⟩
    by_cases hkey₂ : key ∈ c₂.keys
    · obtain ⟨value, hmem⟩ := exists_entry hkey₂
      obtain ⟨c₂', hrun₂, hs₂, heq₂⟩ := exec_get_entries h.sound₂ hmem
      rw [hrun₂]
      refine ⟨h.sound₁, hs₂, ?_⟩
      rw [heq₂]
      exact h.includes.touch_large (map_entries c₁ ▸ hkey₁) (map_entries c₂ ▸ hkey₂) value
    · rw [exec_get_absent h.sound₂ hkey₂]
      exact h

/-- One call. -/
theorem Lockstep.step (hcap : 0 < small) (hle : small ≤ large)
    (h : Lockstep small large c₁ c₂) (op : Op K V) :
    Lockstep small large (exec quiet op c₁).2 (exec quiet op c₂).2
      ∧ Agrees (op, (exec quiet op c₁).1) (op, (exec quiet op c₂).1) := by
  cases op with
  | insert key value => exact ⟨h.insert hcap hle key value, rfl, fun _ _ he => nomatch he⟩
  | get key =>
      obtain ⟨hnext, hanswer⟩ := h.get key
      refine ⟨hnext, rfl, ?_⟩
      rintro _ value he
      obtain ⟨-, hout⟩ := Prod.mk.inj he
      rw [hanswer value hout, hout]

/-- **A larger cache never does worse.**  The same calls on empty caches of the two
    capacities leave the recency list of the smaller one a subsequence of the larger
    one's, and what a `get` finds in the smaller one it finds in the larger one. -/
theorem runs_include (hcap : 1 ≤ small) (hle : small ≤ large) {tr₁ tr₂ : List (Event K V)}
    (h₁ : Run (caches K V small) tr₁ c₁) (h₂ : Run (caches K V large) tr₂ c₂)
    (hcalls : tr₁.map Prod.fst = tr₂.map Prod.fst) :
    c₁.entries.Sublist c₂.entries ∧ List.Forall₂ Agrees tr₁ tr₂ := by
  suffices hboth : Lockstep small large c₁ c₂ ∧ List.Forall₂ Agrees tr₁ tr₂ from
    ⟨hboth.1.includes.sublist, hboth.2⟩
  refine Run.lockstep (I := fun tr₁ tr₂ c₁ c₂ => Lockstep small large c₁ c₂
    ∧ List.Forall₂ Agrees tr₁ tr₂) ?_ ?_ h₁ h₂ hcalls
  · rintro c₁ c₂ rfl rfl
    exact ⟨⟨⟨consistent_construct small, rfl, Nat.zero_le _⟩,
      ⟨consistent_construct large, rfl, Nat.zero_le _⟩, includes_nil small⟩, .nil⟩
  · rintro tr₁ tr₂ c₁ c₂ ⟨op, out₁⟩ ⟨_, out₂⟩ c₁' c₂' ⟨hlock, hagree⟩ hstep₁ hstep₂ rfl
    obtain ⟨hnext, hevent⟩ := hlock.step hcap hle op
    rw [show exec quiet op c₁ = (out₁, c₁') from hstep₁,
      show exec quiet op c₂ = (out₂, c₂') from hstep₂] at hnext hevent
    exact ⟨hnext, List.rel_append hagree (.cons hevent .nil)⟩

/-- The last call of these misses in a cache of two and hits in a cache of three. -/
theorem evictingCalls_include : ∃ c₁ c₂ : Cache Nat Nat,
    Run (caches Nat Nat 2) (evictingCalls ++ [(.get 2, .ok none)]) c₁
      ∧ Run (caches Nat Nat 3) (evictingCalls ++ [(.get 2, .ok (some 20))]) c₂
      ∧ c₁.entries.Sublist c₂.entries := by
  obtain ⟨c₁, hrun₁⟩ : ∃ c₁ : Cache Nat Nat,
      Run (caches Nat Nat 2) (evictingCalls ++ [(.get 2, .ok none)]) c₁ :=
    ⟨_, run_call (run_call (run_call (run_call (run_call (.start rfl) (.insert 1 10))
      (.insert 2 20)) (.get 1)) (.insert 3 30)) (.get 2)⟩
  obtain ⟨c₂, hrun₂⟩ : ∃ c₂ : Cache Nat Nat,
      Run (caches Nat Nat 3) (evictingCalls ++ [(.get 2, .ok (some 20))]) c₂ :=
    ⟨_, run_call (run_call (run_call (run_call (run_call (.start rfl) (.insert 1 10))
      (.insert 2 20)) (.get 1)) (.insert 3 30)) (.get 2)⟩
  exact ⟨c₁, c₂, hrun₁, hrun₂, (runs_include (by decide) (by decide) hrun₁ hrun₂ rfl).1⟩

end LRUCache
