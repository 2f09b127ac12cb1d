import CppPlayground.LRUCache.Inclusion
import CppPlayground.LRUCache.Objects

/-! # `LRUCache`: what a copy can be used for

    The iterators in the table of a copy lead into the list of the original.  `Marked` is a
    recency list that remembers which of its entries came with a copy, and `markedCaches`
    are programs on such lists.  A call for an entry that came with a copy is not one of
    their steps, and in the program it is undefined: the cache would splice a node of
    another list.  Everything else behaves as the lists say, so a copy is good for new keys
    until its old entries are evicted, and a moved cache is as good as before. -/

namespace LRUCache

open Program Transition Inclusion

variable {ι K V : Type} [DecidableEq ι] [DecidableEq K]

/-- Keys, values, and whether the table leads to the node. -/
structure Marked (K V : Type) where
  entries : List (K × V × Bool)
  capacity : Nat

/-- The entry of the key came with a copy. -/
def Marked.Foreign (m : Marked K V) (key : K) : Prop := ∃ value, (key, value, false) ∈ m.entries

def Marked.copied (m : Marked K V) : Marked K V :=
  { m with entries := m.entries.map fun e => (e.1, e.2.1, false) }

def Marked.movedFrom (m : Marked K V) : Marked K V := { m with entries := [] }

def Op.key : Op K V → K
  | .insert key _ => key
  | .get key => key

/-- The calls of a marked list and their answers. -/
inductive Marked.Call (m : Marked K V) : Op K V → Option V → Marked K V → Prop where
  | insert {key : K} (value : V) : ¬ m.Foreign key → m.Call (.insert key value) (some value)
      { m with entries := (toFront key (value, true) m.entries).take m.capacity }
  | hit {key : K} {value : V} : (key, value, true) ∈ m.entries → m.Call (.get key) (some value)
      { m with entries := toFront key (value, true) m.entries }
  | miss {key : K} : key ∉ m.entries.map Prod.fst → m.Call (.get key) none m

/-- What a statement does to marked lists, and its answer. -/
inductive MarkedStep (σ : ι → Option (Marked K V)) :
    Stmt ι K V → Option V → (ι → Option (Marked K V)) → Prop where
  | construct {this : ι} {capacity : Nat} : σ this = none → 1 ≤ capacity →
      MarkedStep σ (.construct this capacity) none (Function.update σ this (some ⟨[], capacity⟩))
  | copyConstruct {this other : ι} {m : Marked K V} : σ this = none → σ other = some m →
      MarkedStep σ (.copyConstruct this other) none (Function.update σ this (some m.copied))
  | moveConstruct {this other : ι} {m : Marked K V} : σ this = none → σ other = some m →
      MarkedStep σ (.moveConstruct this other) none
        (Function.update (Function.update σ other (some m.movedFrom)) this (some m))
  | copyAssignSelf {this : ι} : σ this ≠ none → MarkedStep σ (.copyAssign this this) none σ
  | copyAssign {this other : ι} {m : Marked K V} : this ≠ other → σ this ≠ none →
      σ other = some m →
      MarkedStep σ (.copyAssign this other) none (Function.update σ this (some m.copied))
  | moveAssign {this other : ι} {m : Marked K V} : this ≠ other → σ this ≠ none →
      σ other = some m → MarkedStep σ (.moveAssign this other) none
        (Function.update (Function.update σ other (some m.movedFrom)) this (some m))
  | destruct {this : ι} : σ this ≠ none →
      MarkedStep σ (.destruct this) none (Function.update σ this none)
  | call {this : ι} {m m' : Marked K V} {op : Op K V} {r : Option V} : σ this = some m →
      m.Call op r m' → MarkedStep σ (.call this op) r (Function.update σ this (some m'))

/-- All programs on marked lists. -/
def markedCaches (ι K V : Type) [DecidableEq ι] [DecidableEq K] :
    System (ι → Option (Marked K V)) (Stmt ι K V × Option V) where
  init σ := σ = fun _ => none
  step σ a σ' := MarkedStep σ a.1 a.2 σ'

/-! ## Links into the list, and links out of it -/

variable {c c' : Cache K V} {key : K} {value : V} {next pos : ListIterator}
  {L : K → Option ListIterator} {pre post : List (Node K V)} {n : Node K V}

/-- The keys of the list have the entries that `L` says, and no other key has one; an entry
    leads to the node of its key or out of the list. -/
structure Linked (next : ListIterator) (L : K → Option ListIterator) (c : Cache K V) :
    Prop where
  next_eq : c.nextNode = next
  keys : c.keys.Nodup
  ids : (c.mElements.map Node.id).Nodup
  fresh : ∀ n ∈ c.mElements, n.id < next
  entries : ∀ key, c.mLookup.lookup key = if key ∈ c.keys then L key else none
  links : ∀ key ∈ c.keys, ∃ pos, L key = some pos ∧ pos < next
    ∧ ∀ n ∈ c.mElements, n.id = pos → n.key = key

theorem Linked.of_perm (h : Linked next L c) {es : List (Node K V)}
    (hp : (es.map fun n => (n.key, n.id)).Perm (c.mElements.map fun n => (n.key, n.id))) :
    Linked next L { c with mElements := es } := by
  have hkeys : (es.map Node.key).Perm (c.mElements.map Node.key) := by
    have := hp.map Prod.fst
    rwa [List.map_map, List.map_map] at this
  refine ⟨h.next_eq, hkeys.nodup_iff.mpr h.keys, (ids_of_perm hp).nodup_iff.mpr h.ids,
    fresh_of_perm h.fresh hp, ?_, ?_⟩
  · intro key
    show c.mLookup.lookup key = if key ∈ es.map Node.key then L key else none
    rw [h.entries]
    exact if_congr hkeys.mem_iff.symm rfl rfl
  · intro key hkey
    obtain ⟨pos, hpos, hlt, hnode⟩ := h.links key (hkeys.mem_iff.mp hkey)
    refine ⟨pos, hpos, hlt, fun n hn hid => ?_⟩
    obtain ⟨m, hm, hk, hm'⟩ := (mem_of_perm hp n.key n.id).mp ⟨n, hn, rfl, rfl⟩
    exact hk.symm.trans (hnode m hm (hm'.trans hid))

theorem Linked.evicted (h : Linked next L c) {last : Node K V}
    (heq : c.mElements = pre ++ [last]) : Linked next L (c.evicted last) := by
  have hdrop : c.mElements.dropLast = pre := by rw [heq, List.dropLast_concat]
  have hsub : c.mElements.dropLast.Sublist c.mElements := List.dropLast_sublist _
  have hkeys : c.keys = pre.map Node.key ++ [last.key] := by
    rw [Cache.keys, heq, List.map_append, List.map_singleton]
  have hkeys' : (c.evicted last).keys = pre.map Node.key := by
    show c.mElements.dropLast.map Node.key = _
    rw [hdrop]
  refine ⟨h.next_eq, (hsub.map _).nodup h.keys, (hsub.map _).nodup h.ids,
    fun n hn => h.fresh n (hsub.mem hn), ?_, ?_⟩
  · intro key
    rw [hkeys']
    show (c.mLookup.erase last.key).lookup key = _
    by_cases hk : key = last.key
    · -- the last key is in no other node
      have hnot : key ∉ pre.map Node.key := by
        have hnodup := h.keys
        rw [hkeys, List.nodup_append] at hnodup
        exact fun hmem => hnodup.2.2 key hmem last.key (List.mem_singleton_self _) hk
      rw [if_neg hnot, hk, AList.lookup_erase]
    · rw [AList.lookup_erase_ne hk, h.entries, hkeys]
      refine if_congr ?_ rfl rfl
      rw [List.mem_append, List.mem_singleton, or_iff_left hk]
  · intro key hkey
    rw [hkeys'] at hkey
    have hold : key ∈ c.keys := by
      rw [hkeys]
      exact List.mem_append_left _ hkey
    obtain ⟨pos, hpos, hlt, hnode⟩ := h.links key hold
    exact ⟨pos, hpos, hlt, fun n hn => hnode n (hsub.mem hn)⟩

theorem linked_stable (next : ListIterator) (L : K → Option ListIterator) :
    Stable (Linked next L : Cache K V → Prop) where
  ids h := h.ids
  of_perm h hp := h.of_perm hp
  evicted h heq := h.evicted heq

theorem Linked.grown (h : Linked next L c) (hkey : key ∉ c.keys) (value : V) :
    Linked (next + 1) (Function.update L key (some next)) (c.grown key value) where
  next_eq := congrArg (· + 1) h.next_eq
  keys := List.nodup_cons.mpr ⟨hkey, h.keys⟩
  ids := fresh_ids h.ids (h.next_eq ▸ h.fresh) key value
  fresh := h.next_eq ▸ fresh_lt (h.next_eq ▸ h.fresh) key value
  entries k := by
    show (c.mLookup.insert key c.nextNode).lookup k = if k ∈ key :: c.keys then _ else none
    by_cases hk : k = key
    · rw [hk, AList.lookup_insert, if_pos (List.mem_cons_self ..), Function.update_self,
        h.next_eq]
    · rw [AList.lookup_insert_ne hk, h.entries, Function.update_of_ne hk]
      exact if_congr (by rw [List.mem_cons, or_iff_right hk]) rfl rfl
  links k hmem := by
    by_cases hk : k = key
    · refine ⟨next, by rw [hk, Function.update_self], Nat.lt_succ_self next, ?_⟩
      intro m hm hid
      rcases List.mem_cons.mp hm with rfl | hold
      · exact hk.symm
      · exact absurd hid (Nat.ne_of_lt (h.fresh m hold))
    · obtain ⟨pos, hpos, hlt, hnode⟩ := h.links k ((List.mem_cons.mp hmem).resolve_left hk)
      refine ⟨pos, by rw [Function.update_of_ne hk]; exact hpos, Nat.lt_succ_of_lt hlt, ?_⟩
      intro m hm hid
      rcases List.mem_cons.mp hm with rfl | hold
      · -- an older link does not lead to the new node
        rw [← hid] at hlt
        exact absurd (h.next_eq : c.nextNode = next) (Nat.ne_of_lt hlt)
      · exact hnode m hold hid

/-- The entries of the table, as they are. -/
abbrev SelfLinked (next : ListIterator) (c : Cache K V) : Prop :=
  Linked next (fun key => c.mLookup.lookup key) c

theorem Linked.self (h : Linked next L c) : SelfLinked next c where
  next_eq := h.next_eq
  keys := h.keys
  ids := h.ids
  fresh := h.fresh
  entries key := by
    by_cases hkey : key ∈ c.keys
    · rw [if_pos hkey]
    · rw [if_neg hkey, h.entries, if_neg hkey]
  links key hkey := by
    obtain ⟨pos, hpos, hrest⟩ := h.links key hkey
    refine ⟨pos, ?_, hrest⟩
    show c.mLookup.lookup key = some pos
    rw [h.entries, if_pos hkey, hpos]

/-! ## Marks -/

/-- The entry of a node, with its mark. -/
def mark (L : K → Option ListIterator) (n : Node K V) : K × V × Bool :=
  (n.key, n.value, decide (L n.key = some n.id))

/-- The recency list with its marks. -/
def Cache.marked (c : Cache K V) : Marked K V :=
  ⟨c.mElements.map (mark fun key => c.mLookup.lookup key), c.mCapacity⟩

omit [DecidableEq K] in
theorem map_fst_mark (L : K → Option ListIterator) (l : List (Node K V)) :
    (l.map (mark L)).map Prod.fst = l.map Node.key := List.map_map

theorem Linked.marked_eq (h : Linked next L c) :
    c.marked = ⟨c.mElements.map (mark L), c.mCapacity⟩ := by
  rw [Cache.marked, Marked.mk.injEq]
  refine ⟨List.map_congr_left fun n hn => ?_, rfl⟩
  rw [mark, mark, h.entries,
    if_pos (show n.key ∈ c.keys from List.mem_map_of_mem hn)]

/-- The other entries. -/
theorem without_mark (hkeys : c.keys.Nodup) (heq : c.mElements = pre ++ n :: post) :
    without n.key c.marked.entries
      = (pre ++ post).map (mark fun key => c.mLookup.lookup key) := by
  rw [Cache.keys, heq, List.map_append, List.map_cons] at hkeys
  have hnot := (List.nodup_cons.mp (List.nodup_middle.mp hkeys)).1
  rw [← List.map_append, ← map_fst_mark fun key => c.mLookup.lookup key] at hnot
  have hsame := without_of_not_mem hnot
  rw [List.map_append, without, List.filter_append] at hsame
  rw [Cache.marked, heq, List.map_append, List.map_cons, List.map_append, without,
    List.filter_append, List.filter_cons_of_neg (by simp [mark])]
  exact hsame

/-- The entry of a node that was moved to the front, perhaps with a new value. -/
theorem marked_front (hkeys : c.keys.Nodup) (heq : c.mElements = pre ++ n :: post)
    (hown : c.mLookup.lookup n.key = some n.id) (value : V) :
    Cache.marked { c with mElements := { n with value := value } :: (pre ++ post) }
      = { c.marked with entries := toFront n.key (value, true) c.marked.entries } := by
  rw [toFront, without_mark hkeys heq, Cache.marked, List.map_cons, Marked.mk.injEq]
  refine ⟨congrArg (· :: _) ?_, rfl⟩
  rw [mark, decide_eq_true hown]

/-- What a table says about a key: it has no entry, or one that leads to its node, or one
    that leads out of the list. -/
inductive Finds (c : Cache K V) (key : K) : Prop where
  | absent : key ∉ c.keys → c.mLookup.lookup key = none → Finds c key
  | own (pre post : List (Node K V)) (n : Node K V) : c.mElements = pre ++ n :: post →
      n.key = key → c.mLookup.lookup n.key = some n.id → Finds c key
  | foreign (pos : ListIterator) : c.mLookup.lookup key = some pos → c.node pos = none →
      c.marked.Foreign key → Finds c key

theorem Linked.finds (h : SelfLinked next c) (key : K) : Finds c key := by
  by_cases hkey : key ∈ c.keys
  · obtain ⟨pre, n, post, heq, rfl⟩ := split_of_mem_keys hkey
    have hmem : n ∈ c.mElements := by rw [heq]; simp
    by_cases hown : c.mLookup.lookup n.key = some n.id
    · exact .own pre post n heq rfl hown
    · obtain ⟨pos, hpos, -, hnode⟩ := h.links n.key hkey
      refine .foreign pos hpos (List.find?_eq_none.mpr fun m hm => ?_)
        ⟨n.value, List.mem_map.mpr ⟨n, hmem, ?_⟩⟩
      · -- it would be the node of the key
        rw [decide_eq_true_eq]
        intro hid
        have hsame := List.inj_on_of_nodup_map h.keys hm hmem (hnode m hm hid)
        exact hown (hpos.trans (congrArg some (hid.symm.trans (congrArg Node.id hsame))))
      · rw [mark, decide_eq_false hown]
  · refine .absent hkey ?_
    rw [h.entries, if_neg hkey]

/-- The mark of a key that is found. -/
theorem mem_marked (heq : c.mElements = pre ++ n :: post)
    (hown : c.mLookup.lookup n.key = some n.id) : (n.key, n.value, true) ∈ c.marked.entries := by
  refine List.mem_map.mpr ⟨n, by rw [heq]; simp, ?_⟩
  rw [mark, decide_eq_true hown]

/-- A key has one mark. -/
theorem not_foreign (hkeys : c.keys.Nodup) (heq : c.mElements = pre ++ n :: post)
    (hown : c.mLookup.lookup n.key = some n.id) : ¬ c.marked.Foreign n.key := by
  rintro ⟨value, hmem⟩
  obtain ⟨m, hm, hmark⟩ := List.mem_map.mp hmem
  obtain ⟨hkey, hrest⟩ := Prod.mk.inj hmark
  have hsame := List.inj_on_of_nodup_map hkeys hm (by rw [heq]; simp) hkey
  subst hsame
  exact of_decide_eq_false (Prod.mk.inj hrest).2 hown

theorem absent_not_foreign (hkey : key ∉ c.keys) : ¬ c.marked.Foreign key := by
  rintro ⟨value, hmem⟩
  refine hkey ?_
  rw [Cache.keys, ← map_fst_mark fun key => c.mLookup.lookup key]
  exact List.mem_map_of_mem (f := Prod.fst) hmem

/-! ## One call -/

/-- A cache that copies and moves may have led to. -/
structure Within (next : ListIterator) (c : Cache K V) : Prop where
  linked : SelfLinked next c
  positive : 0 < c.mCapacity
  fits : c.size ≤ c.mCapacity

/-- A call that ends as the marked list says. -/
structure Answers (c : Cache K V) (op : Op K V) (r : Option V) (c' : Cache K V) : Prop where
  run : exec quiet op c = (.ok r, c')
  within : Within c'.nextNode c'
  older : c.nextNode ≤ c'.nextNode
  call : c.marked.Call op r c'.marked

/-- A returning `insert` hands out the first node. -/
theorem exec_insert_first {R : Cache K V → Prop} {E : LibCall → Cache K V → Prop}
    (h : wp (insert quiet key value)
      (fun ref c' => SelfLinked next c'
        ∧ (∃ rest, c'.mElements = ⟨ref, key, value⟩ :: rest) ∧ R c') E c)
    (hE : ∀ e c', ¬ E e c') :
    ∃ c', exec quiet (.insert key value) c = (.ok (some value), c')
      ∧ SelfLinked next c' ∧ R c' := by
  have hexec : wp (exec quiet (.insert key value))
      (fun r c' => r = some value ∧ SelfLinked next c' ∧ R c') E c := by
    rw [exec, wp_bind]
    refine wp_mono h ?_ (fun _ _ he => he)
    rintro ref c' ⟨hc', ⟨rest, heq⟩, hR⟩
    rw [wp_bind]
    refine wp_mono (deref_spec [] ⟨ref, key, value⟩ hc'.ids heq) ?_ (fun _ _ he => he)
    rintro m c'' ⟨rfl, rfl⟩
    exact ⟨rfl, hc', hR⟩
  obtain ⟨r, c', hrun, rfl, hrest⟩ := wp_returns hexec hE
  exact ⟨c', hrun, hrest⟩

/-- A new key pushes out the last entry, if there is no room, whatever its mark. -/
theorem Within.insert_new (h : Within next c) (hkey : key ∉ c.keys)
    (hnone : c.mLookup.lookup key = none) (value : V) :
    ∃ c', Answers c (.insert key value) (some value) c' := by
  have hspec := insert_new_spec
    (linked_stable (next + 1) (Function.update (fun k => c.mLookup.lookup k) key (some next)))
    h.positive hnone quiet value (h.linked.grown hkey value)
  obtain ⟨c', hrun, hself, hlinked, hcap, heq⟩ := exec_insert_first
    (R := fun c' => Linked (next + 1)
        (Function.update (fun k => c.mLookup.lookup k) key (some next)) c'
      ∧ c'.mCapacity = c.mCapacity
      ∧ c'.mElements = ⟨c.nextNode, key, value⟩ :: c.mElements.take (c.mCapacity - 1))
    (wp_mono hspec (by
      rintro ref c' ⟨hc', hcap, rfl, heq⟩
      exact ⟨hc'.self, ⟨_, heq⟩, hc', hcap, heq⟩) (fun _ _ he => he))
    (fun _ _ he => not_insertFails he.1)
  obtain ⟨m, hm⟩ : ∃ m, c.mCapacity = m + 1 := ⟨c.mCapacity - 1, by have := h.positive; omega⟩
  refine ⟨c', hrun, ?_, ?_, ?_⟩
  · rw [hself.next_eq]
    refine ⟨hself, hcap ▸ h.positive, ?_⟩
    rw [Cache.size, heq, hcap, List.length_cons, List.length_take]
    omega
  · rw [hself.next_eq, h.linked.next_eq]
    exact Nat.le_succ next
  · have hmarked : c'.marked
        = { c.marked with
            entries := (toFront key (value, true) c.marked.entries).take c.marked.capacity } := by
      have habsent : key ∉ c.marked.entries.map Prod.fst := by
        rw [Cache.marked, map_fst_mark]
        exact hkey
      rw [hlinked.marked_eq, heq, hcap, toFront, without_of_not_mem habsent, Cache.marked,
        List.map_cons, Marked.mk.injEq]
      refine ⟨?_, rfl⟩
      show _ = List.take c.mCapacity _
      rw [hm, List.take_succ_cons, Nat.add_sub_cancel, ← List.map_take]
      refine congrArg₂ List.cons ?_ (List.map_congr_left fun n hn => ?_)
      · rw [mark, Function.update_self, h.linked.next_eq, decide_eq_true rfl]
      · have hne : n.key ≠ key := fun hk =>
          hkey (hk ▸ List.mem_map_of_mem (List.mem_of_mem_take hn))
        rw [mark, mark, Function.update_of_ne hne]
    rw [hmarked]
    exact .insert value (absent_not_foreign hkey)

/-- Moving a node to the front, perhaps with a new value. -/
theorem Within.front (h : Within next c) (heq : c.mElements = pre ++ n :: post) (value : V) :
    Within next { c with mElements := { n with value := value } :: (pre ++ post) } where
  linked := by
    refine h.linked.of_perm ?_
    rw [heq, List.map_cons, List.map_append, List.map_append, List.map_cons]
    exact List.perm_middle.symm
  positive := h.positive
  fits := by
    rw [Cache.size, length_moved heq]
    exact h.fits

theorem Within.insert_own (h : Within next c) (heq : c.mElements = pre ++ n :: post)
    (hown : c.mLookup.lookup n.key = some n.id) (value : V) :
    ∃ c', Answers c (.insert n.key value) (some value) c' := by
  have hnext := h.linked.next_eq
  have hfront := h.front heq value
  have hspec := insert_present_spec (linked_stable next _) h.linked heq hown quiet value
  obtain ⟨c', hrun, -, rfl⟩ := exec_insert_first
    (R := fun c' => c' = { c with mElements := { n with value := value } :: (pre ++ post) })
    (wp_mono hspec (by
      rintro ref c' ⟨-, rfl, rfl⟩
      exact ⟨hfront.linked, ⟨_, rfl⟩, rfl⟩) (fun _ _ he => he))
    (fun _ _ he => Bool.false_ne_true he.1)
  refine ⟨_, hrun, by rw [← hnext] at hfront; exact hfront, Nat.le_refl _, ?_⟩
  rw [marked_front h.linked.keys heq hown]
  have hcall := Marked.Call.insert value (not_foreign h.linked.keys heq hown)
  -- the list has not grown
  have hlen : (toFront n.key (value, true) c.marked.entries).length ≤ c.marked.capacity := by
    rw [toFront, without_mark h.linked.keys heq, List.length_cons, List.length_map]
    have hfits := hfront.fits
    rwa [Cache.size, List.length_cons] at hfits
  rwa [List.take_of_length_le hlen] at hcall

theorem Within.get_own (h : Within next c) (heq : c.mElements = pre ++ n :: post)
    (hown : c.mLookup.lookup n.key = some n.id) :
    ∃ c', Answers c (.get n.key) (some n.value) c' := by
  have hfront := h.front heq n.value
  rw [← h.linked.next_eq] at hfront
  obtain ⟨r, c', hrun, -, rfl, rfl⟩ := wp_returns
    (get_present_spec (linked_stable next _) h.linked heq hown quiet)
    (fun _ _ he => Bool.false_ne_true he.1)
  refine ⟨_, hrun, hfront, Nat.le_refl _, ?_⟩
  have hmarked := marked_front h.linked.keys heq hown n.value
  exact hmarked ▸ Marked.Call.hit (mem_marked heq hown)

theorem Within.get_absent (h : Within next c) (hkey : key ∉ c.keys)
    (hnone : c.mLookup.lookup key = none) : Answers c (.get key) none c := by
  obtain ⟨r, c', hrun, rfl, rfl⟩ :=
    wp_returns (get_absent_spec hnone quiet) (fun _ _ he => Bool.false_ne_true he.1)
  refine ⟨hrun, h.linked.next_eq ▸ h, Nat.le_refl _, .miss ?_⟩
  rw [Cache.marked, map_fst_mark]
  exact hkey

omit [DecidableEq ι] in
/-- The table is asked first. -/
theorem find_quiet (c : Cache K V) (key : K) :
    find quiet key c = (.ok (c.mLookup.lookup key), c) := rfl

/-- A link out of the list. -/
theorem foreign_undefined {op : Op K V} (hpos : c.mLookup.lookup op.key = some pos)
    (hnode : c.node pos = none) : (exec quiet op c).1 = .undefined := by
  cases op with
  | insert key value =>
      have hderef : (deref pos : Prog (Cache K V) LibCall _) c = (.undefined, c) := by
        rw [deref, access, hnode]
      have hassign : assignValue quiet pos value c = (.undefined, c) :=
        bind_of_undefined hderef
      have hinsert : insert quiet key value c = (.undefined, c) := by
        rw [insert, bind_of_ok (find_quiet c key), show c.mLookup.lookup key = _ from hpos]
        exact bind_of_undefined hassign
      rw [exec, bind_of_undefined hinsert]
  | get key =>
      have hpromote : (promoteElement pos : Prog (Cache K V) LibCall _) c = (.undefined, c) :=
        change_of_none (by rw [hnode, Option.map_none])
      show (get quiet key c).1 = _
      rw [get, bind_of_ok (find_quiet c key), show c.mLookup.lookup key = _ from hpos]
      show ((promoteElement pos >>= _) c).1 = _
      rw [bind_of_undefined hpromote]

/-- **One call** ends as the marked list says, or the key came with a copy. -/
theorem Within.call (h : Within next c) (op : Op K V) :
    (∃ r c', Answers c op r c' ∧ ¬ c.marked.Foreign op.key)
      ∨ ((exec quiet op c).1 = .undefined ∧ c.marked.Foreign op.key) := by
  cases h.linked.finds op.key with
  | absent hkey hnone =>
      refine Or.inl ?_
      cases op with
      | insert key value =>
          obtain ⟨c', hc'⟩ := h.insert_new hkey hnone value
          exact ⟨_, c', hc', absent_not_foreign hkey⟩
      | get key => exact ⟨_, c, h.get_absent hkey hnone, absent_not_foreign hkey⟩
  | own pre post n heq hkey hown =>
      refine Or.inl ?_
      rw [← hkey]
      have hnot := not_foreign h.linked.keys heq hown
      cases op with
      | insert key value =>
          obtain rfl : n.key = key := hkey
          obtain ⟨c', hc'⟩ := h.insert_own heq hown value
          exact ⟨_, c', hc', hnot⟩
      | get key =>
          obtain rfl : n.key = key := hkey
          obtain ⟨c', hc'⟩ := h.get_own heq hown
          exact ⟨_, c', hc', hnot⟩
  | foreign pos hpos hnode hforeign =>
      exact Or.inr ⟨foreign_undefined hpos hnode, hforeign⟩

/-! ## Copies and moves -/

omit [DecidableEq K] in
theorem mem_copyNodes {l : List (Node K V)} (hn : n ∈ copyNodes next l) :
    next ≤ n.id ∧ n.id < next + l.length := by
  induction l generalizing next with
  | nil => exact absurd hn List.not_mem_nil
  | cons m l ih =>
      rcases List.mem_cons.mp hn with rfl | hn
      · exact ⟨Nat.le_refl next, Nat.lt_add_of_pos_right (Nat.succ_pos l.length)⟩
      · obtain ⟨hle, hlt⟩ := ih hn
        exact ⟨Nat.le_of_succ_le hle,
          Nat.lt_of_lt_of_eq hlt (Nat.succ_add_eq_add_succ next l.length)⟩

omit [DecidableEq K] in
theorem map_key_copyNodes (next : ListIterator) (l : List (Node K V)) :
    (copyNodes next l).map Node.key = l.map Node.key := by
  induction l generalizing next with
  | nil => rfl
  | cons n l ih => exact congrArg (n.key :: ·) (ih (next + 1))

omit [DecidableEq K] in
theorem ids_copyNodes (next : ListIterator) (l : List (Node K V)) :
    ((copyNodes next l).map Node.id).Nodup := by
  induction l generalizing next with
  | nil => exact List.nodup_nil
  | cons n l ih =>
      refine List.nodup_cons.mpr ⟨fun hmem => ?_, ih (next + 1)⟩
      obtain ⟨m, hm, hid⟩ := List.mem_map.mp hmem
      exact absurd hid (Nat.ne_of_gt (mem_copyNodes hm).1)

omit [DecidableEq K] in
/-- No link leads to a node of the copy. -/
theorem map_mark_copyNodes {l : List (Node K V)}
    (hold : ∀ n ∈ l, ∀ pos, L n.key = some pos → pos < next) :
    (copyNodes next l).map (mark L) = (l.map (mark L)).map fun e => (e.1, e.2.1, false) := by
  induction l generalizing next with
  | nil => rfl
  | cons n l ih =>
      refine congrArg₂ List.cons ?_ (ih fun m hm pos hpos =>
        Nat.lt_succ_of_lt (hold m (List.mem_cons_of_mem n hm) pos hpos))
      rw [mark, mark, decide_eq_false]
      exact fun hlink => Nat.lt_irrefl next (hold n (List.mem_cons_self ..) next hlink)

omit [DecidableEq K] in
theorem keys_copied (next : ListIterator) (c : Cache K V) : (c.copied next).keys = c.keys :=
  map_key_copyNodes next c.mElements

omit [DecidableEq K] in
theorem size_copied (next : ListIterator) (c : Cache K V) : (c.copied next).size = c.size := by
  have hlen := congrArg List.length (keys_copied next c)
  rwa [Cache.keys, Cache.keys, List.length_map, List.length_map] at hlen

/-- An object, with the counter it allocates from. -/
abbrev Good (next : ListIterator) (c : Cache K V) : Prop :=
  Within next { c with nextNode := next }

theorem Good.mono (h : Good next c) {later : ListIterator} (hle : next ≤ later) :
    Good later c where
  linked :=
    { next_eq := rfl
      keys := h.linked.keys
      ids := h.linked.ids
      fresh := fun n hn => Nat.lt_of_lt_of_le (h.linked.fresh n hn) hle
      entries := h.linked.entries
      links := fun key hkey => by
        obtain ⟨pos, hpos, hlt, hnode⟩ := h.linked.links key hkey
        exact ⟨pos, hpos, Nat.lt_of_lt_of_le hlt hle, hnode⟩ }
  positive := h.positive
  fits := h.fits

theorem good_of_empty (hnil : c.mElements = []) (hempty : c.mLookup = ∅)
    (hpos : 0 < c.mCapacity) (next : ListIterator) : Good next c where
  linked :=
    { next_eq := rfl
      keys := by rw [Cache.keys, hnil]; exact List.nodup_nil
      ids := by rw [hnil]; exact List.nodup_nil
      fresh := fun n hn => by rw [hnil] at hn; exact absurd hn List.not_mem_nil
      entries := fun key => by
        show c.mLookup.lookup key = _
        rw [hempty, AList.lookup_empty, ite_self]
      links := fun key hkey => by
        rw [Cache.keys, hnil] at hkey
        exact absurd hkey List.not_mem_nil }
  positive := hpos
  fits := by rw [Cache.size, hnil]; exact Nat.zero_le _

theorem Good.link_lt (h : Good next c) (hn : n ∈ c.mElements)
    (hpos : c.mLookup.lookup n.key = some pos) : pos < next := by
  obtain ⟨pos', hpos', hlt, -⟩ := h.linked.links n.key (List.mem_map_of_mem hn)
  rwa [Option.some.inj (hpos.symm.trans hpos')]

theorem Good.copied (h : Good next c) : Good (next + c.size) (c.copied next) where
  linked :=
    { next_eq := rfl
      keys := (keys_copied next c).symm ▸ h.linked.keys
      ids := ids_copyNodes next c.mElements
      fresh := fun n hn => (mem_copyNodes hn).2
      entries := fun key => by
        show c.mLookup.lookup key = if key ∈ (c.copied next).keys then _ else none
        rw [keys_copied]
        exact h.linked.entries key
      links := fun key hkey => by
        obtain ⟨pos, hpos, hlt, -⟩ := h.linked.links key (keys_copied next c ▸ hkey)
        refine ⟨pos, hpos, Nat.lt_of_lt_of_le hlt (Nat.le_add_right _ _), fun n hn hid => ?_⟩
        exact absurd hid (Nat.ne_of_gt (Nat.lt_of_lt_of_le hlt (mem_copyNodes hn).1)) }
  positive := h.positive
  fits := Nat.le_trans (Nat.le_of_eq (size_copied next c)) h.fits

theorem Good.marked_copied (h : Good next c) : (c.copied next).marked = c.marked.copied := by
  rw [Cache.marked, Marked.copied, Marked.mk.injEq]
  exact ⟨map_mark_copyNodes fun n hn pos hpos => h.link_lt hn hpos, rfl⟩

/-! ## Programs -/

variable {s s' : Objects ι K V} {this other : ι}

/-- The lists of all objects, with their marks. -/
def Objects.marked (s : Objects ι K V) : ι → Option (Marked K V) :=
  fun this => (s.object this).map Cache.marked

/-- All objects are good. -/
def Objects.Keep (s : Objects ι K V) : Prop :=
  ∀ this c, s.object this = some c → Good s.nextNode c

theorem Objects.marked_put (s : Objects ι K V) (this : ι) (c : Option (Cache K V)) :
    (s.put this c).marked = Function.update s.marked this (c.map Cache.marked) := by
  funext k
  show (Function.update s.object this c k).map Cache.marked = _
  by_cases hk : k = this
  · rw [hk, Function.update_self, Function.update_self]
  · rw [Function.update_of_ne hk, Function.update_of_ne hk]
    rfl

omit [DecidableEq ι] in
theorem Objects.marked_of (hc : s.object this = some c) : s.marked this = some c.marked := by
  rw [Objects.marked, hc, Option.map_some]

omit [DecidableEq ι] in
theorem Objects.marked_none (h : s.object this = none) : s.marked this = none := by
  rw [Objects.marked, h, Option.map_none]

omit [DecidableEq ι] in
theorem Objects.marked_ne_none (h : s.object this ≠ none) : s.marked this ≠ none := by
  intro hnone
  exact h (Option.map_eq_none_iff.mp hnone)

/-- A new or changed object. -/
theorem Objects.Keep.put (h : s.Keep) {later : ListIterator} (hle : s.nextNode ≤ later)
    {c : Option (Cache K V)} (hc : ∀ c', c = some c' → Good later c') :
    ({ s.put this c with nextNode := later } : Objects ι K V).Keep := by
  intro k c' hk
  have hk' : Function.update s.object this c k = some c' := hk
  by_cases hthis : k = this
  · rw [hthis, Function.update_self] at hk'
    exact hc c' hk'
  · rw [Function.update_of_ne hthis] at hk'
    exact (h k c' hk').mono hle

omit [DecidableEq ι] [DecidableEq K] in
theorem fields_of (hc : s.object this = some c) :
    (fields this : Prog (Objects ι K V) LibCall _) s = (.ok c, s) := by
  rw [fields, access, hc]

omit [DecidableEq K] in
theorem copyMembers_of (hc : s.object other = some c) :
    copyMembers this other s = (.ok (),
      { s.put this (some (c.copied s.nextNode)) with nextNode := s.nextNode + c.size }) := by
  rw [copyMembers, bind_of_ok (fields_of hc)]
  rfl

omit [DecidableEq K] in
theorem moveMembers_of (hc : s.object other = some c) :
    moveMembers this other s = (.ok (), (s.put other (some c.movedFrom)).put this (some c)) := by
  rw [moveMembers, bind_of_ok (fields_of hc)]
  rfl

/-- A call, as a call of the object with the common counter. -/
theorem call_of (hc : s.object this = some c) (op : Op K V) :
    call this op s = ((exec quiet op { c with nextNode := s.nextNode }).1,
      { s.put this (some (exec quiet op { c with nextNode := s.nextNode }).2) with
        nextNode := (exec quiet op { c with nextNode := s.nextNode }).2.nextNode }) := by
  rw [call, bind_of_ok (fields_of hc)]
  rfl

theorem Objects.Keep.copyMembers (h : s.Keep) (this : ι) (hc : s.object other = some c) :
    ∃ s', copyMembers this other s = (.ok (), s') ∧ s'.Keep
      ∧ s'.marked = Function.update s.marked this (some c.marked.copied) := by
  refine ⟨_, copyMembers_of hc, h.put (Nat.le_add_right _ _) ?_, ?_⟩
  · rintro _ ⟨⟩
    exact (h other c hc).copied
  · rw [← (h other c hc).marked_copied]
    exact s.marked_put this (some (c.copied s.nextNode))

theorem Objects.Keep.moveMembers (h : s.Keep) (this : ι) (hc : s.object other = some c) :
    ∃ s', moveMembers this other s = (.ok (), s') ∧ s'.Keep
      ∧ s'.marked = Function.update (Function.update s.marked other (some c.marked.movedFrom))
        this (some c.marked) := by
  have hgood := h other c hc
  have hleft : (s.put other (some c.movedFrom)).Keep := by
    refine h.put (Nat.le_refl _) ?_
    rintro _ ⟨⟩
    exact good_of_empty (c := c.movedFrom) rfl rfl hgood.positive _
  refine ⟨_, moveMembers_of hc, hleft.put (Nat.le_refl _) ?_, ?_⟩
  · rintro _ ⟨⟩
    exact hgood
  · rw [Objects.marked_put, Objects.marked_put]
    rfl

/-- A call of an object: it ends as the marked list says, or is undefined. -/
theorem Objects.Keep.call (h : s.Keep) (hc : s.object this = some c) (op : Op K V) :
    (∃ r s', LRUCache.call this op s = (.ok r, s') ∧ s'.Keep
        ∧ MarkedStep s.marked (.call this op) r s'.marked ∧ ¬ c.marked.Foreign op.key)
      ∨ ((LRUCache.call this op s).1 = .undefined ∧ c.marked.Foreign op.key) := by
  rw [call_of hc]
  rcases (h this c hc).call op with ⟨r, c', hc', hnot⟩ | hundefined
  · rw [hc'.run]
    refine Or.inl ⟨r, _, rfl, h.put hc'.older ?_, ?_, hnot⟩
    · rintro _ ⟨⟩
      exact hc'.within
    · have hstep := MarkedStep.call (Objects.marked_of hc) hc'.call
      rw [← Option.map_some, ← s.marked_put this (some c')] at hstep
      exact hstep
  · exact Or.inr hundefined

/-- **One statement** does to the objects what it does to the lists. -/
theorem Objects.Keep.step (h : s.Keep) {a : Stmt ι K V × Option V}
    (hstep : (objects ι K V).step s a s') : s'.Keep ∧ MarkedStep s.marked a.1 a.2 s'.marked := by
  obtain ⟨stmt, r⟩ := a
  obtain ⟨hallowed, hrun⟩ : Allowed s stmt ∧ perform stmt s = (.ok r, s') := hstep
  show s'.Keep ∧ MarkedStep s.marked stmt r s'.marked
  -- every statement but a call answers nothing
  have hdone : ∀ {p : Prog (Objects ι K V) LibCall Unit} {s₁ : Objects ι K V},
      p s = (.ok (), s₁) → (do p; pure none : Prog (Objects ι K V) LibCall (Option V)) s
        = (.ok r, s') → none = r ∧ s₁ = s' := by
    intro p s₁ hp hall
    rw [bind_of_ok hp] at hall
    exact pure_ok_iff.mp hall
  cases stmt with
  | construct this capacity =>
      obtain ⟨hnone, hcap⟩ := hallowed
      obtain ⟨rfl, rfl⟩ := hdone (show construct this capacity s
        = (.ok (), s.put this (some (Cache.construct capacity))) from rfl) hrun
      refine ⟨h.put (Nat.le_refl _) ?_, ?_⟩
      · rintro _ ⟨⟩
        exact good_of_empty (c := Cache.construct capacity) rfl rfl hcap _
      · rw [Objects.marked_put]
        exact .construct (Objects.marked_none hnone) hcap
  | copyConstruct this other =>
      obtain ⟨hnone, hother⟩ := hallowed
      obtain ⟨c, hc⟩ := Option.ne_none_iff_exists'.mp hother
      obtain ⟨s₁, hcopy, hkeep, hmarked⟩ := h.copyMembers this hc
      obtain ⟨rfl, rfl⟩ := hdone hcopy hrun
      rw [hmarked]
      exact ⟨hkeep, .copyConstruct (Objects.marked_none hnone) (Objects.marked_of hc)⟩
  | moveConstruct this other =>
      obtain ⟨hnone, hother⟩ := hallowed
      obtain ⟨c, hc⟩ := Option.ne_none_iff_exists'.mp hother
      obtain ⟨s₁, hmove, hkeep, hmarked⟩ := h.moveMembers this hc
      obtain ⟨rfl, rfl⟩ := hdone hmove hrun
      rw [hmarked]
      exact ⟨hkeep, .moveConstruct (Objects.marked_none hnone) (Objects.marked_of hc)⟩
  | copyAssign this other =>
      obtain ⟨hthis, hother⟩ := hallowed
      obtain ⟨c, hc⟩ := Option.ne_none_iff_exists'.mp hother
      by_cases hself : this = other
      · subst hself
        obtain ⟨rfl, rfl⟩ := hdone (show copyAssign this this s = (.ok (), s) by
          rw [copyAssign, if_pos rfl]; rfl) hrun
        exact ⟨h, .copyAssignSelf (Objects.marked_ne_none hthis)⟩
      · obtain ⟨s₁, hcopy, hkeep, hmarked⟩ := h.copyMembers this hc
        obtain ⟨rfl, rfl⟩ := hdone (show copyAssign this other s = (.ok (), s₁) by
          rw [copyAssign, if_neg hself, hcopy]) hrun
        rw [hmarked]
        exact ⟨hkeep, .copyAssign hself (Objects.marked_ne_none hthis) (Objects.marked_of hc)⟩
  | moveAssign this other =>
      obtain ⟨hne, hthis, hother⟩ := hallowed
      obtain ⟨c, hc⟩ := Option.ne_none_iff_exists'.mp hother
      obtain ⟨s₁, hmove, hkeep, hmarked⟩ := h.moveMembers this hc
      obtain ⟨rfl, rfl⟩ := hdone hmove hrun
      rw [hmarked]
      exact ⟨hkeep, .moveAssign hne (Objects.marked_ne_none hthis) (Objects.marked_of hc)⟩
  | destruct this =>
      obtain ⟨rfl, rfl⟩ := hdone
        (show destruct this s = (.ok (), s.put this none) from rfl) hrun
      refine ⟨h.put (Nat.le_refl _) (fun c hc => by cases hc), ?_⟩
      rw [Objects.marked_put]
      exact .destruct (Objects.marked_ne_none hallowed)
  | call this op =>
      obtain ⟨c, hc⟩ := Option.ne_none_iff_exists'.mp hallowed
      rcases h.call hc op with ⟨r', s₁, hcall, hkeep, hmarked, -⟩ | ⟨hundefined, -⟩
      · obtain ⟨hr, rfl⟩ := Prod.mk.inj (hcall.symm.trans hrun)
        obtain rfl := Outcome.ok.inj hr
        exact ⟨hkeep, hmarked⟩
      · rw [show LRUCache.call this op s = _ from hrun] at hundefined
        cases (show Outcome.ok r = .undefined from hundefined)

/-- Programs on objects are programs on marked lists. -/
theorem objects_simulation : Simulation (objects ι K V) (markedCaches ι K V)
    fun s σ => s.Keep ∧ σ = s.marked where
  init s hs := by
    obtain rfl : s = _ := hs
    refine ⟨fun _ => none, rfl, fun this c hc => ?_, rfl⟩
    cases hc
  step s σ a s' hrel hstep := by
    obtain ⟨hkeep, rfl⟩ := hrel
    obtain ⟨hkeep', hmarked⟩ := hkeep.step hstep
    exact ⟨s'.marked, hmarked, hkeep', rfl⟩

theorem run_perform {tr : List (Stmt ι K V × Option V)} (h : Run (objects ι K V) tr s)
    (stmt : Stmt ι K V) (hallowed : Allowed s stmt) {r : Option V}
    (hrun : perform stmt s = (.ok r, s')) : Run (objects ι K V) (tr ++ [(stmt, r)]) s' :=
  .snoc h ⟨hallowed, hrun⟩

/-- A cache with one entry, and its copy. -/
def copyingProgram : List (Stmt Bool Nat Nat × Option Nat) :=
  [(.construct false 2, none), (.call false (.insert 1 10), some 10),
    (.copyConstruct true false, none), (.call true (.insert 2 20), some 20)]

/-- The statement copies a cache. -/
def Stmt.Copies : Stmt ι K V → Prop
  | .copyConstruct _ _ => True
  | .copyAssign this other => this ≠ other
  | _ => False

variable {σ σ' : ι → Option (Marked K V)} {m m' : Marked K V}

/-- No entry of the list came with a copy. -/
def Marked.Own (m : Marked K V) : Prop := ∀ e ∈ m.entries, e.2.2 = true

omit [DecidableEq K] in
theorem Marked.Own.not_foreign (h : m.Own) (key : K) : ¬ m.Foreign key := by
  rintro ⟨value, hmem⟩
  exact Bool.false_ne_true (h _ hmem)

theorem own_toFront (h : m.Own) (key : K) (value : V) :
    ∀ e ∈ toFront key (value, true) m.entries, e.2.2 = true := by
  intro e he
  rcases List.mem_cons.mp he with rfl | hrest
  · rfl
  · exact h e (List.mem_of_mem_filter hrest)

theorem Marked.Own.call (h : m.Own) {op : Op K V} {r : Option V} (hcall : m.Call op r m') :
    m'.Own := by
  cases hcall with
  | insert value => exact fun e he => own_toFront h _ value e (List.mem_of_mem_take he)
  | hit => exact own_toFront h _ _
  | miss => exact h

omit [DecidableEq K] in
theorem own_update (h : ∀ this m, σ this = some m → m.Own) {this : ι}
    {o : Option (Marked K V)} (ho : ∀ m, o = some m → m.Own) :
    ∀ k m, Function.update σ this o k = some m → m.Own := by
  intro k m hm
  by_cases hk : k = this
  · rw [hk, Function.update_self] at hm
    exact ho m hm
  · rw [Function.update_of_ne hk] at hm
    exact h k m hm

omit [DecidableEq K] in
theorem own_move (h : ∀ this m, σ this = some m → m.Own) (hm : σ other = some m) :
    ∀ k m', Function.update (Function.update σ other (some m.movedFrom)) this (some m) k = some m'
      → m'.Own := by
  refine own_update (own_update h ?_) ?_
  · rintro _ ⟨⟩ e he
    exact absurd he List.not_mem_nil
  · rintro _ ⟨⟩
    exact h other m hm

/-- One statement that does not copy. -/
theorem own_step (h : ∀ this m, σ this = some m → m.Own) {stmt : Stmt ι K V} {r : Option V}
    (hstep : MarkedStep σ stmt r σ') (hmoves : ¬ stmt.Copies) :
    ∀ this m, σ' this = some m → m.Own := by
  cases hstep with
  | construct hnone hcap =>
      refine own_update h ?_
      rintro _ ⟨⟩ e he
      exact absurd he List.not_mem_nil
  | copyConstruct hnone hm => exact absurd trivial hmoves
  | moveConstruct hnone hm => exact own_move h hm
  | copyAssignSelf hthis => exact h
  | copyAssign hne hthis hm => exact absurd hne hmoves
  | moveAssign hne hthis hm => exact own_move h hm
  | destruct hthis => exact own_update h fun m hm => by cases hm
  | call hm hcall =>
      refine own_update h ?_
      rintro _ ⟨⟩
      exact (h _ _ hm).call hcall

/-- **A moved cache is as good as before.**  Where caches are constructed, moved, called and
    destroyed but not copied, no call is undefined. -/
theorem uncopied_calls_return {tr : List (Stmt ι K V × Option V)}
    (h : Run (objects ι K V) tr s) (hmoves : ∀ a ∈ tr, ¬ a.1.Copies)
    (hc : s.object this = some c) (op : Op K V) :
    ∃ r, (perform (.call this op) s).1 = .ok r := by
  obtain ⟨_, hrun, hkeep, rfl⟩ := objects_simulation.run h
  have hown : (∀ a ∈ tr, ¬ a.1.Copies) → ∀ this m, s.marked this = some m → m.Own := by
    refine Run.invariant (I := fun tr σ => (∀ a ∈ tr, ¬ a.1.Copies) →
      ∀ this m, σ this = some m → m.Own) ?_ ?_ hrun
    · rintro σ rfl - this m hm
      cases hm
    · intro as σ a σ' _ hbefore hstep hall
      refine own_step (hbefore fun b hb => hall b (List.mem_append_left _ hb)) hstep ?_
      exact hall a (List.mem_append_right _ (List.mem_singleton_self a))
  rcases hkeep.call hc op with ⟨r, s', hcall, -⟩ | ⟨-, hforeign⟩
  · exact ⟨r, congrArg Prod.fst hcall⟩
  · have hm := hown hmoves this c.marked (Objects.marked_of hc)
    exact absurd hforeign (hm.not_foreign op.key)

/-- A cache that is moved finds what was inserted before. -/
theorem movingProgram_returns : ∃ s : Objects Bool Nat Nat, ∃ c,
    Run (objects Bool Nat Nat) [(.construct false 2, none),
      (.call false (.insert 1 10), some 10), (.moveConstruct true false, none)] s
      ∧ s.object true = some c ∧ (∃ r, (perform (.call true (.get 1)) s).1 = .ok r)
      ∧ (perform (.call true (.get 1)) s).1 = .ok (some 10) := by
  have h₀ : Run (objects Bool Nat Nat) [] _ := .start rfl
  have h₁ := run_perform h₀ (.construct false 2) ⟨rfl, Nat.le_succ 1⟩ rfl
  have h₂ := run_perform h₁ (.call false (.insert 1 10)) (Option.some_ne_none _) rfl
  have h₃ := run_perform h₂ (.moveConstruct true false) ⟨rfl, Option.some_ne_none _⟩ rfl
  refine ⟨_, _, h₃, rfl, uncopied_calls_return h₃ ?_ rfl (.get 1), rfl⟩
  intro a ha
  simp only [List.nil_append, List.cons_append, List.mem_cons, List.not_mem_nil, or_false] at ha
  rcases ha with rfl | rfl | rfl <;> exact fun h => h

end LRUCache
