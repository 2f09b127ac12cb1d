import CppPlayground.LFSPSCQueue.Refinement
import CppPlayground.LFSPSCQueue.WeakModel

/-! # `LFSPSCQueue` under release and acquire

    A thread that loads an old index believes the ring to be fuller, or emptier, than it
    is, and nothing else: what it takes for granted about the other one's progress was true
    once, and progress is not undone.  So the values are those of the interleaving model,
    and only the refusals may come too often.

    `Knows` is what holds of the memory for each of the two threads, `count` being how
    often it has stored its index and `busy` whether it has accessed the slot at its
    position since.  Whoever has seen message `k` of the other one's index knows of all
    its accesses but those at the positions from `k` on (`released`). -/

namespace LFSPSCQueue.Weak

open Storage Transition Channel Events ReleaseAcquire

variable {t d : Side}

theorem other_ne (d : Side) : d.other ≠ d := by cases d <;> decide

theorem ne_other (d : Side) : d ≠ d.other := (other_ne d).symm

theorem other_other (d : Side) : d.other.other = d := by cases d <;> rfl

theorem eq_other_of_ne (h : d ≠ t) : d = t.other := by
  cases d <;> cases t <;> first | rfl | exact absurd rfl h

section Memory

variable {size : Nat} {m m' : Indices} {count count' busy busy' : Side → Nat}

/-- The memory, from the point of view of one thread. -/
structure Knows (size : Nat) (m : Indices) (count busy : Side → Nat) (d : Side) : Prop where
  length : (m.messages d).length = count d + 1
  value : ∀ (k : Nat) (msg : Message Side Side Nat), (m.messages d)[k]? = some msg →
    msg.value = k % size
  own : (m.view d).2 d = count d
  known : (m.view d).2 d.other ≤ count d.other
  stamps : ∀ (k : Nat) (msg : Message Side Side Nat), (m.messages d)[k]? = some msg →
    msg.view.2 d ≤ k ∧ msg.view.2 d.other ≤ count d.other
  acquired : ∀ msg : Message Side Side Nat,
    (m.messages d.other)[(m.view d).2 d.other]? = some msg →
      msg.view.1 d.other ≤ (m.view d).1 d.other
  accessed : ∀ p, m.accessed p d ≤ (m.view d).1 d
  released : ∀ (k : Nat) (msg : Message Side Side Nat) (p : Nat),
    (m.messages d)[k]? = some msg →
      (∀ j, k ≤ j → j < count d + busy d → j % size ≠ p) → m.accessed p d ≤ msg.view.1 d

theorem knows_initial (size : Nat) (d : Side) :
    Knows size (.initial fun _ => 0) (fun _ => 0) (fun _ => 0) d := by
  have hmessage : ∀ (k : Nat) (msg : Message Side Side Nat),
      ([⟨0, ⊥⟩] : List (Message Side Side Nat))[k]? = some msg → k = 0 ∧ msg = ⟨0, ⊥⟩ := by
    intro k msg h
    have hmsg := List.mem_singleton.mp (List.mem_of_getElem? h)
    obtain ⟨hk, -⟩ := List.getElem?_eq_some_iff.mp h
    exact ⟨Nat.lt_one_iff.mp hk, hmsg⟩
  refine ⟨rfl, ?_, rfl, Nat.le_refl _, ?_, ?_, fun _ => Nat.le_refl _,
    fun _ _ _ _ _ => Nat.zero_le _⟩
  · intro k msg h
    obtain ⟨rfl, rfl⟩ := hmessage k msg h
    exact (Nat.zero_mod size).symm
  · intro k msg h
    obtain ⟨rfl, rfl⟩ := hmessage k msg h
    exact ⟨Nat.le_refl _, Nat.le_refl _⟩
  · intro msg h
    obtain ⟨-, rfl⟩ := hmessage _ msg h
    exact Nat.le_refl _

/-- The other thread's step, as far as it concerns this one. -/
theorem Knows.frame (h : Knows size m count busy d) (hmessages : m'.messages d = m.messages d)
    (hview : m'.view d = m.view d) (haccessed : ∀ p, m'.accessed p d = m.accessed p d)
    (hother : ∀ k, k ≤ count d.other → (m'.messages d.other)[k]? = (m.messages d.other)[k]?)
    (hcount : count' d = count d) (hbusy : busy' d = busy d)
    (hmore : count d.other ≤ count' d.other) : Knows size m' count' busy' d where
  length := by rw [hmessages, hcount]; exact h.length
  value := by rw [hmessages]; exact h.value
  own := by rw [hview, hcount]; exact h.own
  known := by rw [hview]; exact h.known.trans hmore
  stamps k msg hmsg := by
    rw [hmessages] at hmsg
    obtain ⟨hown, hle⟩ := h.stamps k msg hmsg
    exact ⟨hown, hle.trans hmore⟩
  acquired msg hmsg := by
    rw [hview, hother _ h.known] at hmsg
    rw [hview]
    exact h.acquired msg hmsg
  accessed p := by rw [haccessed, hview]; exact h.accessed p
  released k msg p hmsg hp := by
    rw [hmessages] at hmsg
    rw [hcount, hbusy] at hp
    rw [haccessed]
    exact h.released k msg p hmsg hp

/-- **Who has seen message `k`** may access the slots at which the other thread has not been
    since. -/
theorem ordered_of_knows (h : ∀ d, Knows size m count busy d) {p : Nat}
    (hp : ∀ j, (m.view t).2 t.other ≤ j → j < count t.other + busy t.other → j % size ≠ p) :
    m.Ordered t p := by
  intro u
  by_cases hu : u = t
  · rw [hu]
    exact (h t).accessed p
  · obtain rfl := eq_other_of_ne hu
    have hknown := (h t).known
    have hlt : (m.view t).2 t.other < (m.messages t.other).length := by
      rw [(h t.other).length]
      omega
    have hmsg := List.getElem?_eq_getElem hlt
    exact ((h t.other).released _ _ p hmsg hp).trans ((h t).acquired _ hmsg)

/-! ## What a step does to the memory -/

/-- A load of either index: the thread's own one is loaded at its newest message. -/
theorem knows_load (h : ∀ d, Knows size m count busy d) {a : Side} {k v : Nat} {acquire : Bool}
    (hload : m.load t a k acquire = some (v, m')) (hacquire : a = t.other → acquire = true)
    (hrelaxed : a = t → acquire = false) :
    v = k % size ∧ (m.view t).2 a ≤ k ∧ k ≤ count a
      ∧ (m'.view t).2 t.other = (if a = t then (m.view t).2 t.other else k)
      ∧ m'.view t.other = m.view t.other ∧ ∀ d, Knows size m' count busy d := by
  obtain ⟨hle, msg, hmsg, rfl, rfl⟩ := load_eq_some hload
  obtain ⟨hk, -⟩ := List.getElem?_eq_some_iff.mp hmsg
  rw [(h a).length] at hk
  have hview : ∀ b, (m.loadView t a k acquire msg).2 b = max (max ((m.view t).2 b)
      ((stamp a k : View Side Side).2 b)) (if acquire then msg.view.2 b else 0) :=
    loadView_snd m t a k acquire msg
  have hgrows : ∀ u, (m.view t).1 u ≤ (m.loadView t a k acquire msg).1 u := by
    intro u
    rw [loadView_fst]
    exact (Nat.le_add_right _ _).trans (Nat.le_max_left _ _)
  obtain ⟨hstamp, hstamp'⟩ := (h a).stamps k msg hmsg
  -- the newest known messages afterwards
  have hown : (m.loadView t a k acquire msg).2 t = count t := by
    rw [hview, (h t).own]
    by_cases ha : a = t
    · subst ha
      rw [hrelaxed rfl, stamp_snd_self]
      show max (max (count a) k) 0 = _
      omega
    · obtain rfl := eq_other_of_ne ha
      rw [hacquire rfl, stamp_snd_other (ne_other t)]
      have hother : msg.view.2 t ≤ count t := by
        cases t <;> exact hstamp'
      show max (max (count t) 0) (msg.view.2 t) = _
      omega
  have hknown : (m.loadView t a k acquire msg).2 t.other
      = if a = t then (m.view t).2 t.other else k := by
    rw [hview]
    by_cases ha : a = t
    · subst ha
      rw [hrelaxed rfl, stamp_snd_other (other_ne a), if_pos rfl]
      show max (max _ 0) 0 = _
      omega
    · obtain rfl := eq_other_of_ne ha
      rw [hacquire rfl, stamp_snd_self, if_neg (other_ne t)]
      show max (max _ k) (msg.view.2 t.other) = _
      omega
  have hself : (Function.update m.view t (m.loadView t a k acquire msg)) t = _ :=
    Function.update_self ..
  refine ⟨(h a).value k msg hmsg, hle, Nat.lt_succ_iff.mp hk,
    (congrArg (·.2 t.other) hself).trans hknown, Function.update_of_ne (other_ne t) _ _,
    fun d => ?_⟩
  by_cases hd : d = t
  · subst hd
    refine ⟨(h d).length, (h d).value, (congrArg (·.2 d) hself).trans hown, ?_, (h d).stamps,
      ?_, ?_, (h d).released⟩
    · show (Function.update m.view d _ d).2 d.other ≤ _
      rw [hself, hknown]
      by_cases ha : a = d
      · rw [if_pos ha]
        exact (h d).known
      · rw [if_neg ha, ← eq_other_of_ne ha]
        exact Nat.lt_succ_iff.mp hk
    · intro msg' hmsg'
      change (m.messages d.other)[(Function.update m.view d _ d).2 d.other]? = _ at hmsg'
      show _ ≤ (Function.update m.view d _ d).1 d.other
      rw [hself] at hmsg' ⊢
      rw [hknown] at hmsg'
      by_cases ha : a = d
      · rw [if_pos ha] at hmsg'
        exact ((h d).acquired msg' hmsg').trans (hgrows _)
      · obtain rfl := eq_other_of_ne ha
        rw [if_neg ha, hmsg] at hmsg'
        obtain rfl := Option.some.inj hmsg'
        rw [loadView_fst, hacquire rfl]
        exact Nat.le_max_right _ _
    · intro p
      show _ ≤ (Function.update m.view d _ d).1 d
      rw [hself]
      exact ((h d).accessed p).trans (hgrows d)
  · exact (h d).frame rfl (Function.update_of_ne hd _ _) (fun _ => rfl) (fun _ _ => rfl) rfl rfl
      (Nat.le_refl _)

theorem storeView_known (m : Indices) (t : Side) :
    (m.storeView t t).2 t.other = (m.view t).2 t.other := by
  rw [storeView_snd, stamp_snd_other (other_ne t)]
  exact Nat.max_eq_left (Nat.zero_le _)

/-- Storing its index a thread learns nothing. -/
theorem store_known (m : Indices) (t : Side) (v : Nat) :
    ((m.store t t v true).view t).2 t.other = (m.view t).2 t.other :=
  (congrArg (·.2 t.other) (Function.update_self t (m.storeView t t) m.view)).trans
    (storeView_known m t)

/-- An index is stored after the slot at its position has been accessed. -/
theorem knows_store (h : ∀ d, Knows size m count busy d) {v : Nat} (hbusy : busy t = 1)
    (hv : v = (count t + 1) % size) (hcount : count' t = count t + 1)
    (hcount' : count' t.other = count t.other) (hidle : busy' t = 0)
    (hbusy' : busy' t.other = busy t.other) :
    ∀ d, Knows size (m.store t t v true) count' busy' d := by
  have hself : (m.store t t v true).view t = m.storeView t t := Function.update_self ..
  have hmessages : (m.store t t v true).messages t = m.messages t ++ [⟨v, m.storeView t t⟩] :=
    Function.update_self ..
  have hother : (m.store t t v true).messages t.other = m.messages t.other :=
    Function.update_of_ne (other_ne t) ..
  have hlength := (h t).length
  have hknown := storeView_known m t
  have hown : (m.storeView t t).2 t = count t + 1 := by
    rw [storeView_snd, stamp_snd_self, (h t).own, hlength]
    exact Nat.max_eq_right (Nat.le_succ _)
  have hgrows : ∀ u, (m.view t).1 u ≤ (m.storeView t t).1 u := by
    intro u
    rw [storeView_fst]
    exact Nat.le_add_right _ _
  intro d
  by_cases hd : d = t
  · subst hd
    refine ⟨?_, ?_, ?_, ?_, ?_, ?_, ?_, ?_⟩
    · rw [hmessages, List.length_append, hlength, hcount]
      rfl
    · intro k msg hmsg
      rw [hmessages] at hmsg
      rcases getElem?_concat hmsg with hold | ⟨rfl, rfl⟩
      · exact (h d).value k msg hold
      · rw [hlength]
        exact hv
    · rw [hself, hown, hcount]
    · rw [hself, hknown, hcount']
      exact (h d).known
    · intro k msg hmsg
      rw [hmessages] at hmsg
      rw [hcount']
      rcases getElem?_concat hmsg with hold | ⟨rfl, rfl⟩
      · exact (h d).stamps k msg hold
      · exact ⟨Nat.le_of_eq (hown.trans hlength.symm), hknown.trans_le (h d).known⟩
    · intro msg hmsg
      rw [hself, hknown, hother] at hmsg
      rw [hself]
      exact ((h d).acquired msg hmsg).trans (hgrows _)
    · intro p
      rw [hself]
      exact ((h d).accessed p).trans (hgrows d)
    · intro k msg p hmsg hp
      rw [hmessages] at hmsg
      rcases getElem?_concat hmsg with hold | ⟨-, rfl⟩
      · refine (h d).released k msg p hold fun j hkj hj => hp j hkj ?_
        rw [hcount, hidle]
        rw [hbusy] at hj
        exact hj
      · exact ((h d).accessed p).trans (hgrows d)
  · obtain rfl := eq_other_of_ne hd
    refine (h t.other).frame hother (Function.update_of_ne hd ..) (fun _ => rfl) ?_ hcount' hbusy'
      ?_
    · intro k hk
      rw [other_other] at hk ⊢
      rw [hmessages, List.getElem?_append_left (by omega)]
    · rw [other_other, hcount]
      exact Nat.le_succ _

/-- The slot at the thread's own position is accessed. -/
theorem knows_access (h : ∀ d, Knows size m count busy d) (hle : busy t ≤ 1)
    (hbusy : busy' t = 1) (hbusy' : busy' t.other = busy t.other) :
    ∀ d, Knows size (m.access t (count t % size)) count busy' d := by
  have hself : (m.access t (count t % size)).view t = tick t (m.view t) :=
    Function.update_self ..
  intro d
  by_cases hd : d = t
  · subst hd
    have haccessed : ∀ p, p ≠ count d % size →
        (m.access d (count d % size)).accessed p d = m.accessed p d := fun p hp =>
      congrFun (Function.update_of_ne hp ..) d
    refine ⟨(h d).length, (h d).value, ?_, ?_, (h d).stamps, ?_, ?_, ?_⟩
    · rw [hself]
      exact (h d).own
    · rw [hself]
      exact (h d).known
    · intro msg hmsg
      rw [hself] at hmsg ⊢
      rw [tick_fst]
      exact ((h d).acquired msg hmsg).trans (Nat.le_add_right _ _)
    · intro p
      rw [hself, tick_fst_self]
      by_cases hp : p = count d % size
      · subst hp
        show Function.update m.accessed _ _ _ d ≤ _
        rw [Function.update_self, Function.update_self]
      · rw [haccessed p hp]
        exact ((h d).accessed p).trans (Nat.le_succ _)
    · intro k msg p hmsg hp
      obtain ⟨hk, -⟩ := List.getElem?_eq_some_iff.mp hmsg
      change k < (m.messages d).length at hk
      rw [(h d).length] at hk
      rw [hbusy] at hp
      -- the slot accessed is at a position from `k` on
      rw [haccessed p fun heq => hp (count d) (by omega) (by omega) heq.symm]
      exact (h d).released k msg p hmsg fun j hkj hj => hp j hkj (by omega)
  · obtain rfl := eq_other_of_ne hd
    refine (h t.other).frame rfl (Function.update_of_ne hd ..) ?_ (fun _ _ => rfl) rfl hbusy'
      (Nat.le_refl _)
    intro p
    show Function.update m.accessed _ _ p t.other = _
    by_cases hp : p = count t % size
    · subst hp
      rw [Function.update_self, Function.update_of_ne (other_ne t)]
    · rw [Function.update_of_ne hp]

end Memory

/-! ## The steps, by what they do -/

variable {T : Type} {n : Nat} {capacity k size : Nat} {moved : T → T} {value : T}
  {q q' : WeakQueue T} {xs : List T} {a : WeakEvent T}

inductive ProducerMoves (size : Nat) (value : T) (q : WeakQueue T) :
    WeakEvent T → WeakQueue T → Prop where
  | loadWrite {k write : Nat} {m : Indices} : q.producer = .idle →
      q.indices.load .producer mWriteIndex k false = some (write, m) →
      ProducerMoves size value q (some (.producer, .load mWriteIndex k false), .internal)
        { q with indices := m, producer := .loadedWrite value write }
  | refuse {v : T} {k write read : Nat} {m : Indices} : q.producer = .loadedWrite v write →
      q.indices.load .producer mReadIndex k true = some (read, m) →
      nextIndex size write = read →
      ProducerMoves size value q (some (.producer, .load mReadIndex k true), .refused v)
        { q with indices := m, producer := .idle }
  | findRoom {v : T} {k write read : Nat} {m : Indices} : q.producer = .loadedWrite v write →
      q.indices.load .producer mReadIndex k true = some (read, m) →
      nextIndex size write ≠ read →
      ProducerMoves size value q (some (.producer, .load mReadIndex k true), .internal)
        { q with indices := m, producer := .constructing v write (nextIndex size write) }
  | construct {v : T} {write next : Nat} : q.producer = .constructing v write next →
      q.indices.Ordered .producer write →
      ProducerMoves size value q (some (.producer, .access write), .internal)
        { q with
          mRingBuffer := Function.update q.mRingBuffer write (some v)
          indices := q.indices.access .producer write
          producer := .storing v next }
  | publish {v : T} {next : Nat} : q.producer = .storing v next →
      ProducerMoves size value q
        (some (.producer, .store mWriteIndex (q.indices.messages mWriteIndex).length true),
          .pushed v)
        { q with
          indices := q.indices.store .producer mWriteIndex next true
          producer := .idle }
  | crash : (size = 0 ∨ q.producer = .crashed ∨ ∃ v write next,
        q.producer = .constructing v write next ∧ ¬ (write < size
          ∧ (q.mRingBuffer write).isNone ∧ q.indices.Ordered .producer write)) →
      ProducerMoves size value q (none, .internal) { q with producer := .crashed }

theorem producer_moves (hstep : producerStep size value k q = some (a, q')) :
    ProducerMoves size value q a q' := by
  cases hp : q.producer with
  | idle =>
      simp only [producerStep, hp, Option.map_eq_some_iff] at hstep
      obtain ⟨⟨write, m⟩, hload, heq⟩ := hstep
      cases heq
      exact .loadWrite hp hload
  | loadedWrite v write =>
      simp only [producerStep, hp] at hstep
      split at hstep
      · rename_i hzero
        cases hstep
        exact .crash (Or.inl hzero)
      · obtain ⟨⟨read, m⟩, hload, heq⟩ := Option.map_eq_some_iff.mp hstep
        by_cases hfull : nextIndex size write = read
        · rw [if_pos hfull] at heq
          cases heq
          exact .refuse hp hload hfull
        · rw [if_neg hfull] at heq
          cases heq
          exact .findRoom hp hload hfull
  | constructing v write next =>
      simp only [producerStep, hp] at hstep
      split at hstep
      · rename_i hslot
        cases hstep
        exact .construct hp hslot.2.2
      · rename_i hslot
        cases hstep
        exact .crash (Or.inr (Or.inr ⟨v, write, next, hp, hslot⟩))
  | storing v next =>
      simp only [producerStep, hp, Option.some.injEq, Prod.mk.injEq] at hstep
      obtain ⟨rfl, rfl⟩ := hstep
      exact .publish hp
  | crashed =>
      simp only [producerStep, hp] at hstep
      cases hstep
      have hcrash : ProducerMoves size value q (none, .internal) { q with producer := .crashed } :=
        .crash (Or.inr (Or.inl hp))
      rwa [← hp] at hcrash

inductive ConsumerMoves (size : Nat) (moved : T → T) (q : WeakQueue T) :
    WeakEvent T → WeakQueue T → Prop where
  | loadRead {k read : Nat} {m : Indices} : q.consumer = .idle →
      q.indices.load .consumer mReadIndex k false = some (read, m) →
      ConsumerMoves size moved q (some (.consumer, .load mReadIndex k false), .internal)
        { q with indices := m, consumer := .loadedRead read }
  | findEmpty {k read : Nat} {m : Indices} : q.consumer = .loadedRead read →
      q.indices.load .consumer mWriteIndex k true = some (read, m) →
      ConsumerMoves size moved q (some (.consumer, .load mWriteIndex k true), .foundEmpty)
        { q with indices := m, consumer := .idle }
  | findValue {k read write : Nat} {m : Indices} : q.consumer = .loadedRead read →
      q.indices.load .consumer mWriteIndex k true = some (write, m) → read ≠ write →
      ConsumerMoves size moved q (some (.consumer, .load mWriteIndex k true), .internal)
        { q with indices := m, consumer := .reading read }
  | read {read : Nat} {v : T} : q.consumer = .reading read → q.mRingBuffer read = some v →
      q.indices.Ordered .consumer read →
      ConsumerMoves size moved q (some (.consumer, .access read), .internal)
        { q with
          mRingBuffer := Function.update q.mRingBuffer read (some (moved v))
          indices := q.indices.access .consumer read
          consumer := .destroying read v }
  | destroy {read : Nat} {result : T} : q.consumer = .destroying read result →
      q.indices.Ordered .consumer read →
      ConsumerMoves size moved q (some (.consumer, .access read), .internal)
        { q with
          mRingBuffer := Function.update q.mRingBuffer read none
          indices := q.indices.access .consumer read
          consumer := .storing read result }
  | release {read : Nat} {result : T} : q.consumer = .storing read result →
      ConsumerMoves size moved q
        (some (.consumer, .store mReadIndex (q.indices.messages mReadIndex).length true),
          .popped result)
        { q with
          indices := q.indices.store .consumer mReadIndex (nextIndex size read) true
          consumer := .idle }
  | crash : (size = 0 ∨ q.consumer = .crashed
        ∨ (∃ read, q.consumer = .reading read
          ∧ ¬ ((q.mRingBuffer read).isSome ∧ q.indices.Ordered .consumer read))
        ∨ ∃ read result, q.consumer = .destroying read result
          ∧ ¬ ((q.mRingBuffer read).isSome ∧ q.indices.Ordered .consumer read)) →
      ConsumerMoves size moved q (none, .internal) { q with consumer := .crashed }

theorem consumer_moves (hstep : consumerStep size moved k q = some (a, q')) :
    ConsumerMoves size moved q a q' := by
  cases hc : q.consumer with
  | idle =>
      simp only [consumerStep, hc, Option.map_eq_some_iff] at hstep
      obtain ⟨⟨read, m⟩, hload, heq⟩ := hstep
      cases heq
      exact .loadRead hc hload
  | loadedRead read =>
      simp only [consumerStep, hc, Option.map_eq_some_iff] at hstep
      obtain ⟨⟨write, m⟩, hload, heq⟩ := hstep
      by_cases hempty : read = write
      · rw [if_pos hempty] at heq
        cases heq
        subst hempty
        exact .findEmpty hc hload
      · rw [if_neg hempty] at heq
        cases heq
        exact .findValue hc hload hempty
  | reading read =>
      simp only [consumerStep, hc] at hstep
      cases hslot : q.mRingBuffer read with
      | some v =>
          simp only [hslot] at hstep
          split at hstep
          · rename_i hordered
            cases hstep
            exact .read hc hslot hordered
          · rename_i hordered
            cases hstep
            exact .crash (Or.inr (Or.inr (Or.inl ⟨read, hc, fun h => hordered h.2⟩)))
      | none =>
          simp only [hslot] at hstep
          cases hstep
          refine .crash (Or.inr (Or.inr (Or.inl ⟨read, hc, fun h => ?_⟩)))
          rw [hslot] at h
          exact absurd h.1 Bool.false_ne_true
  | destroying read result =>
      simp only [consumerStep, hc] at hstep
      split at hstep
      · rename_i hslot
        cases hstep
        exact .destroy hc hslot.2
      · rename_i hslot
        cases hstep
        exact .crash (Or.inr (Or.inr (Or.inr ⟨read, result, hc, hslot⟩)))
  | storing read result =>
      simp only [consumerStep, hc] at hstep
      split at hstep
      · rename_i hzero
        cases hstep
        exact .crash (Or.inl hzero)
      · cases hstep
        exact .release hc
  | crashed =>
      simp only [consumerStep, hc] at hstep
      cases hstep
      have hcrash : ConsumerMoves size moved q (none, .internal) { q with consumer := .crashed } :=
        .crash (Or.inr (Or.inl hc))
      rwa [← hc] at hcrash

/-- The step of the memory, if there is one. -/
def MemoryStep (m : Indices) (e : Option (Side × Action Side Nat)) (m' : Indices) : Prop :=
  match e with
  | none => m' = m
  | some e => (memories id fun _ => 0).step m e m'

theorem ProducerMoves.memoryStep (h : ProducerMoves size value q a q') :
    MemoryStep q.indices a.1 q'.indices := by
  cases h with
  | loadWrite hp hload => exact ⟨_, hload⟩
  | refuse hp hload hfull => exact ⟨_, hload⟩
  | findRoom hp hload hroom => exact ⟨_, hload⟩
  | construct hp hordered => exact ⟨hordered, rfl⟩
  | publish hp => exact ⟨rfl, rfl, _, rfl⟩
  | crash hcrash => rfl

theorem ConsumerMoves.memoryStep (h : ConsumerMoves size moved q a q') :
    MemoryStep q.indices a.1 q'.indices := by
  cases h with
  | loadRead hc hload => exact ⟨_, hload⟩
  | findEmpty hc hload => exact ⟨_, hload⟩
  | findValue hc hload hvalue => exact ⟨_, hload⟩
  | read hc hslot hordered => exact ⟨hordered, rfl⟩
  | destroy hc hordered => exact ⟨hordered, rfl⟩
  | release hc => exact ⟨rfl, rfl, _, rfl⟩
  | crash hcrash => rfl

/-! ## The invariant -/

/-- The producer has found room. -/
def roomFound : Producer T → Nat
  | .constructing _ _ _ | .storing _ _ => 1
  | _ => 0

/-- The consumer has found a value. -/
def valueFound : Consumer T → Nat
  | .reading _ | .destroying _ _ | .storing _ _ => 1
  | _ => 0

/-- The consumer has accessed the slot. -/
def taken : Consumer T → Nat
  | .destroying _ _ | .storing _ _ => 1
  | _ => 0

/-- How often a thread has stored its index. -/
def stores (n : Nat) (xs : List T) : Side → Nat
  | .producer => n + xs.length
  | .consumer => n

/-- Whether a thread has accessed the slot at its position without storing its index yet. -/
def WeakQueue.accessing (q : WeakQueue T) : Side → Nat
  | .producer => (constructed q.producer).length
  | .consumer => taken q.consumer

/-- The queue as it looks to those who see the newest indices. -/
def WeakQueue.interleaved (q : WeakQueue T) (capacity n : Nat) (xs : List T) : Queue T :=
  ⟨q.mRingBuffer, n % (capacity + 1), (n + xs.length) % (capacity + 1), q.producer, q.consumer⟩

/-- The newest message of the other index that a thread knows. -/
def WeakQueue.known (q : WeakQueue T) (d : Side) : Nat := (q.indices.view d).2 d.other

structure Inv (capacity : Nat) (moved : T → T) (q : WeakQueue T) (n : Nat) (xs : List T) :
    Prop where
  values : LFSPSCQueue.Inv capacity moved (q.interleaved capacity n xs) n xs
  knows : ∀ d, Knows (capacity + 1) q.indices (stores n xs) q.accessing d
  room : n + xs.length + roomFound q.producer ≤ q.known .producer + capacity
  found : n + valueFound q.consumer ≤ q.known .consumer

theorem inv_construct (capacity : Nat) (moved : T → T) :
    Inv capacity moved WeakQueue.construct 0 [] where
  values := by
    have h := LFSPSCQueue.inv_construct capacity moved
    rw [Queue.construct, ← Nat.zero_mod (capacity + 1)] at h
    exact h
  knows d := by
    have hstores : stores 0 ([] : List T) = fun _ => 0 := by funext d; cases d <;> rfl
    have hbusy : (WeakQueue.construct : WeakQueue T).accessing = fun _ => 0 := by
      funext d
      cases d <;> rfl
    rw [hstores, hbusy]
    exact knows_initial _ d
  room := Nat.zero_le _
  found := Nat.zero_le _

theorem Inv.fits (h : Inv capacity moved q n xs) : xs.length ≤ capacity := h.values.fits

theorem Inv.known_producer (h : Inv capacity moved q n xs) : q.known .producer ≤ n :=
  (h.knows .producer).known

theorem Inv.known_consumer (h : Inv capacity moved q n xs) :
    q.known .consumer ≤ n + xs.length := (h.knows .consumer).known

/-- What an old read index says of the ring. -/
theorem next_eq_old_iff {w r : Nat} (hle : r ≤ w) (hfit : w ≤ r + capacity) :
    (w + 1) % (capacity + 1) = r % (capacity + 1) ↔ w = r + capacity := by
  obtain ⟨j, rfl⟩ := Nat.exists_eq_add_of_le hle
  have hiff : (r + (List.replicate j ()).length + 1) % (capacity + 1) = r % (capacity + 1)
      ↔ (List.replicate j ()).length = capacity :=
    next_eq_read_iff (by rw [List.length_replicate]; omega)
  rw [List.length_replicate] at hiff
  rw [hiff]
  omega

/-- What an old write index says of the ring. -/
theorem read_eq_old_iff {r w : Nat} (hle : r ≤ w) (hfit : w ≤ r + capacity) :
    r % (capacity + 1) = w % (capacity + 1) ↔ w = r := by
  obtain ⟨j, rfl⟩ := Nat.exists_eq_add_of_le hle
  have hiff : r % (capacity + 1) = (r + (List.replicate j ()).length) % (capacity + 1)
      ↔ List.replicate j () = [] :=
    read_eq_write_iff (by rw [List.length_replicate]; omega)
  rw [List.length_replicate, List.replicate_eq_nil_iff] at hiff
  rw [hiff]
  omega

theorem mod_ne {c i : Nat} (hpos : 0 < i) (hlt : i < c) (j : Nat) : j % c ≠ (j + i) % c := by
  intro heq
  have := eq_of_mod_eq (h := j) (i := 0) (j := i) (by omega) hlt heq
  omega

theorem taken_le_found (c : Consumer T) : taken c ≤ valueFound c := by
  cases c <;> first | exact Nat.le_refl _ | exact Nat.zero_le _

theorem constructed_le_passed (p : Producer T) : (constructed p).length ≤ roomFound p := by
  cases p <;> first | exact Nat.le_refl _ | exact Nat.zero_le _

/-- **No race of the producer**: once it has found room, it knows of everything that was
    done in the slot. -/
theorem Inv.ordered_producer (h : Inv capacity moved q n xs) (hpassed : roomFound q.producer = 1) :
    q.indices.Ordered .producer ((n + xs.length) % (capacity + 1)) := by
  refine ordered_of_knows h.knows fun j hkj hj heq => ?_
  change q.known .producer ≤ j at hkj
  change j < n + taken q.consumer at hj
  have hroom := h.room
  have hfound := h.found
  have hknown := h.known_consumer
  have htaken := taken_le_found q.consumer
  obtain ⟨i, hi⟩ : ∃ i, n + xs.length = j + i := ⟨n + xs.length - j, by omega⟩
  rw [hi] at heq
  exact mod_ne (by omega) (by omega) j heq

/-- **No race of the consumer**: once it has found a value, it knows of everything that was
    done in the slot. -/
theorem Inv.ordered_consumer (h : Inv capacity moved q n xs) (hfound : valueFound q.consumer = 1) :
    q.indices.Ordered .consumer (n % (capacity + 1)) := by
  refine ordered_of_knows h.knows fun j hkj hj heq => ?_
  change q.known .consumer ≤ j at hkj
  change j < n + xs.length + (constructed q.producer).length at hj
  have hroom := h.room
  have hfound' := h.found
  have hknown := h.known_producer
  have hconstructed := constructed_le_passed q.producer
  obtain ⟨i, rfl⟩ : ∃ i, j = n + i := ⟨j - n, by omega⟩
  exact mod_ne (by omega) (by omega) n heq.symm

/-! ## One step -/

/-- An unsuccessful call, which an old index may cause at any time, counts for nothing. -/
def quiet : Event T → Event T
  | .refused _ | .foundEmpty => .internal
  | a => a

/-- A step that changes the memory and a program point only. -/
theorem Inv.setProducer (h : Inv capacity moved q n xs) {p : Producer T} {m : Indices}
    (hold : constructed q.producer = []) (hnew : constructed p = [])
    (hp : ProducerAt capacity { q.interleaved capacity n xs with producer := p } xs)
    (hknows : ∀ d, Knows (capacity + 1) m (stores n xs) q.accessing d)
    (hroom : n + xs.length + roomFound p ≤ (m.view .producer).2 .consumer + capacity)
    (hconsumer : m.view .consumer = q.indices.view .consumer) :
    Inv capacity moved { q with indices := m, producer := p } n xs where
  values := h.values.setProducer hold hnew hp
  knows d := by
    have haccessing : ({ q with indices := m, producer := p } : WeakQueue T).accessing
        = q.accessing := by
      funext d
      cases d with
      | producer =>
          show (constructed p).length = (constructed q.producer).length
          rw [hold, hnew]
      | consumer => rfl
    rw [haccessing]
    exact hknows d
  room := hroom
  found := by
    show n + valueFound q.consumer ≤ (m.view .consumer).2 .producer
    rw [hconsumer]
    exact h.found

theorem Inv.producer_ne_crashed (h : Inv capacity moved q n xs) : q.producer ≠ .crashed := by
  intro hp
  have hprod := h.values.producer
  rw [ProducerAt, show (q.interleaved capacity n xs).producer = _ from hp] at hprod
  exact hprod

/-- Before the producer looks for room. -/
theorem Inv.loadedWrite (h : Inv capacity moved q n xs) {v : T} {write : Nat}
    (hp : q.producer = .loadedWrite v write) :
    write = (n + xs.length) % (capacity + 1) ∧ n + xs.length ≤ q.known .producer + capacity := by
  have hprod := h.values.producer
  have hroom := h.room
  rw [ProducerAt, show (q.interleaved capacity n xs).producer = _ from hp] at hprod
  rw [hp] at hroom
  exact ⟨hprod, hroom⟩

/-- Once it has found room. -/
theorem Inv.constructing (h : Inv capacity moved q n xs) {v : T} {write next : Nat}
    (hp : q.producer = .constructing v write next) :
    write = (n + xs.length) % (capacity + 1) ∧ write < capacity + 1
      ∧ (q.mRingBuffer write).isNone ∧ q.indices.Ordered .producer write := by
  have hprod := h.values.producer
  have hp' : (q.interleaved capacity n xs).producer = .constructing v write next := hp
  rw [ProducerAt, hp'] at hprod
  obtain ⟨hwrite, -, hfits⟩ := hprod
  obtain rfl : write = (n + xs.length) % (capacity + 1) := hwrite
  obtain ⟨hlt, hfree, -⟩ := h.values.behind (by rw [hp']; rfl) hfits
  exact ⟨rfl, hlt, Option.isNone_iff_eq_none.mpr hfree, h.ordered_producer (by rw [hp]; rfl)⟩

/-- **A step of the producer.** -/
theorem producer_step (hcap : capacity + 1 < 2 ^ 64) (h : Inv capacity moved q n xs)
    (hmoves : ProducerMoves (capacity + 1) value q a q') :
    ∃ xs', (channel T capacity).step xs (quiet a.2) xs' ∧ a.2.receives = none
      ∧ Inv capacity moved q' n xs' := by
  cases hmoves with
  | @loadWrite k write m hp hload =>
      obtain ⟨rfl, hown, hle, hknown, hview, hknows⟩ :=
        knows_load h.knows hload (fun h => nomatch h) fun _ => rfl
      -- the producer's own index is at its newest message
      obtain rfl : k = n + xs.length := Nat.le_antisymm hle
        ((Nat.le_of_eq (h.knows .producer).own.symm).trans hown)
      refine ⟨xs, rfl, rfl, h.setProducer (by rw [hp]; rfl) rfl rfl hknows ?_ hview⟩
      have hroom := h.room
      rw [hp] at hroom
      exact hroom.trans (Nat.le_of_eq (congrArg (· + capacity) hknown.symm))
  | @refuse v k write read m hp hload hfull =>
      obtain ⟨rfl, hold, hle, hknown, hview, hknows⟩ :=
        knows_load h.knows hload (fun _ => rfl) fun h => nomatch h
      refine ⟨xs, rfl, rfl, h.setProducer (by rw [hp]; rfl) rfl trivial hknows ?_ hview⟩
      rw [show (m.view .producer).2 .consumer = k from hknown]
      exact (h.loadedWrite hp).2.trans (Nat.add_le_add_right hold _)
  | @findRoom v k write read m hp hload hroom =>
      obtain ⟨rfl, hold, hle, hknown, hview, hknows⟩ :=
        knows_load h.knows hload (fun _ => rfl) fun h => nomatch h
      obtain ⟨rfl, hbound⟩ := h.loadedWrite hp
      change q.known .producer ≤ k at hold
      change k ≤ n at hle
      change (m.view .producer).2 .consumer = k at hknown
      rw [nextIndex_mod hcap, Ne, next_eq_old_iff (by omega) (by omega)] at hroom
      refine ⟨xs, rfl, rfl, h.setProducer (by rw [hp]; rfl) rfl ⟨rfl, rfl, by omega⟩ hknows ?_
        hview⟩
      rw [hknown, show ∀ w x : Nat, roomFound (.constructing v w x : Producer T) = 1 from
        fun _ _ => rfl]
      omega
  | @construct v write next hp hordered =>
      have hp' : (q.interleaved capacity n xs).producer = .constructing v write next := hp
      obtain ⟨xs', hchannel, hvalues⟩ := LFSPSCQueue.producer_step hcap h.values v
      obtain ⟨rfl, hlt, hfree, -⟩ := h.constructing hp
      rw [ringSize_eq hcap] at hchannel hvalues
      have hslot : (n + xs.length) % (capacity + 1) < capacity + 1
          ∧ ((q.interleaved capacity n xs).mRingBuffer ((n + xs.length) % (capacity + 1))).isNone :=
        ⟨hlt, hfree⟩
      simp only [LFSPSCQueue.producerStep, hp', if_pos hslot] at hchannel hvalues
      obtain rfl : xs' = xs := hchannel
      have hroom := h.room
      rw [hp] at hroom
      refine ⟨xs', rfl, rfl, hvalues, knows_access h.knows ?_ rfl rfl, ?_, h.found⟩
      · show (constructed q.producer).length ≤ 1
        rw [hp]
        exact Nat.zero_le 1
      · show n + xs'.length + 1 ≤ ((q.indices.access .producer _).view .producer).2 .consumer
          + capacity
        exact hroom
  | @publish v next hp =>
      have hp' : (q.interleaved capacity n xs).producer = .storing v next := hp
      obtain ⟨xs', hchannel, hvalues⟩ := LFSPSCQueue.producer_step hcap h.values v
      rw [ringSize_eq hcap] at hchannel hvalues
      simp only [LFSPSCQueue.producerStep, hp'] at hchannel hvalues
      obtain ⟨hfits, rfl⟩ : xs.length < capacity ∧ xs' = xs ++ [v] := hchannel
      have hlength : n + (xs ++ [v]).length = n + xs.length + 1 := by
        rw [List.length_append]
        rfl
      have hnext : next = (n + (xs ++ [v]).length) % (capacity + 1) := hvalues.write
      have hroom := h.room
      rw [hp] at hroom
      have hknows : ∀ d, Knows (capacity + 1) (q.indices.store .producer mWriteIndex next true)
          (stores n (xs ++ [v])) (WeakQueue.accessing { q with producer := .idle }) d := by
        refine knows_store h.knows ?_ ?_ hlength rfl rfl rfl
        · show (constructed q.producer).length = 1
          rw [hp]
          rfl
        · rw [hnext, hlength]
          rfl
      rw [hnext] at hvalues
      refine ⟨xs ++ [v], ⟨hfits, rfl⟩, rfl, ⟨hvalues, hknows, ?_, h.found⟩⟩
      have hknown : ((q.indices.store .producer mWriteIndex next true).view .producer).2 .consumer
          = q.known .producer := store_known q.indices .producer next
      rw [hlength]
      exact hroom.trans (Nat.le_of_eq (congrArg (· + capacity) hknown.symm))
  | crash hcrash =>
      rcases hcrash with hzero | hp | ⟨v, write, next, hp, hslot⟩
      · exact absurd hzero (Nat.succ_ne_zero capacity)
      · exact absurd hp h.producer_ne_crashed
      · exact absurd (h.constructing hp).2 hslot

/-- Likewise for the consumer. -/
theorem Inv.setConsumer (h : Inv capacity moved q n xs) {c : Consumer T} {m : Indices}
    (hstart : start n c = start n q.consumer)
    (hpub : published moved xs c = published moved xs q.consumer)
    (hc : ConsumerAt { q.interleaved capacity n xs with consumer := c } xs)
    (htaken : taken c = taken q.consumer)
    (hknows : ∀ d, Knows (capacity + 1) m (stores n xs) q.accessing d)
    (hfound : n + valueFound c ≤ (m.view .consumer).2 .producer)
    (hproducer : m.view .producer = q.indices.view .producer) :
    Inv capacity moved { q with indices := m, consumer := c } n xs where
  values := h.values.setConsumer hstart hpub hc
  knows d := by
    have haccessing : ({ q with indices := m, consumer := c } : WeakQueue T).accessing
        = q.accessing := by
      funext d
      cases d with
      | producer => rfl
      | consumer => exact htaken
    rw [haccessing]
    exact hknows d
  room := by
    show _ ≤ (m.view .producer).2 .consumer + capacity
    rw [hproducer]
    exact h.room
  found := hfound

theorem Inv.consumer_ne_crashed (h : Inv capacity moved q n xs) : q.consumer ≠ .crashed := by
  intro hc
  have hcons := h.values.consumer
  rw [ConsumerAt, show (q.interleaved capacity n xs).consumer = _ from hc] at hcons
  exact hcons

/-- Before the consumer looks for a value. -/
theorem Inv.loadedRead (h : Inv capacity moved q n xs) {read : Nat}
    (hc : q.consumer = .loadedRead read) :
    read = n % (capacity + 1) ∧ n ≤ q.known .consumer := by
  have hcons := h.values.consumer
  have hfound := h.found
  rw [ConsumerAt, show (q.interleaved capacity n xs).consumer = _ from hc] at hcons
  rw [hc] at hfound
  exact ⟨hcons, hfound⟩

/-- Once it has found one. -/
theorem Inv.reading (h : Inv capacity moved q n xs) {read : Nat}
    (hc : q.consumer = .reading read) :
    read = n % (capacity + 1) ∧ ∃ x rest, xs = x :: rest
      ∧ HoldsRing (capacity + 1) n q.mRingBuffer (x :: (rest ++ constructed q.producer))
      ∧ q.indices.Ordered .consumer read := by
  have hc' : (q.interleaved capacity n xs).consumer = .reading read := hc
  have hcons := h.values.consumer
  have hring := h.values.ring
  rw [ConsumerAt, hc'] at hcons
  rw [hc'] at hring
  obtain ⟨hread, hne⟩ := hcons
  obtain rfl : read = n % (capacity + 1) := hread
  obtain ⟨x, rest, rfl⟩ := List.exists_cons_of_ne_nil hne
  exact ⟨rfl, x, rest, rfl, hring, h.ordered_consumer (by rw [hc]; rfl)⟩

/-- Once it has moved the value out of the slot. -/
theorem Inv.destroying (h : Inv capacity moved q n xs) {read : Nat} {result : T}
    (hc : q.consumer = .destroying read result) :
    read = n % (capacity + 1) ∧ ∃ rest, xs = result :: rest
      ∧ HoldsRing (capacity + 1) n q.mRingBuffer (moved result :: (rest ++ constructed q.producer))
      ∧ q.indices.Ordered .consumer read := by
  have hc' : (q.interleaved capacity n xs).consumer = .destroying read result := hc
  have hcons := h.values.consumer
  have hring := h.values.ring
  rw [ConsumerAt, hc'] at hcons
  rw [hc'] at hring
  obtain ⟨hread, hhead⟩ := hcons
  obtain rfl : read = n % (capacity + 1) := hread
  obtain ⟨rest, rfl⟩ := cons_of_head? hhead
  exact ⟨rfl, rest, rfl, hring, h.ordered_consumer (by rw [hc]; rfl)⟩

/-- **A step of the consumer.** -/
theorem consumer_step (hcap : capacity + 1 < 2 ^ 64) (h : Inv capacity moved q n xs)
    (hmoves : ConsumerMoves (capacity + 1) moved q a q') :
    ∃ n' xs', (channel T capacity).step xs (quiet a.2) xs'
      ∧ n' = n + a.2.receives.toList.length ∧ Inv capacity moved q' n' xs' := by
  have hfound := h.found
  cases hmoves with
  | @loadRead k read m hc hload =>
      obtain ⟨rfl, hown, hle, hknown, hview, hknows⟩ :=
        knows_load h.knows hload (fun h => nomatch h) fun _ => rfl
      obtain rfl : k = n := Nat.le_antisymm hle
        ((Nat.le_of_eq (h.knows .consumer).own.symm).trans hown)
      rw [hc] at hfound
      exact ⟨k, xs, rfl, rfl, h.setConsumer (by rw [hc]; rfl) (by rw [hc]; rfl) rfl
        (by rw [hc]; rfl) hknows (hfound.trans (Nat.le_of_eq hknown.symm)) hview⟩
  | @findEmpty k read m hc hload =>
      obtain ⟨hread, hold, hle, hknown, hview, hknows⟩ :=
        knows_load h.knows hload (fun _ => rfl) fun h => nomatch h
      refine ⟨n, xs, rfl, rfl, h.setConsumer (by rw [hc]; rfl) (by rw [hc]; rfl) trivial
        (by rw [hc]; rfl) hknows ?_ hview⟩
      rw [show (m.view .consumer).2 .producer = k from hknown]
      exact (h.loadedRead hc).2.trans hold
  | @findValue k read write m hc hload hvalue =>
      obtain ⟨rfl, hold, hle, hknown, hview, hknows⟩ :=
        knows_load h.knows hload (fun _ => rfl) fun h => nomatch h
      obtain ⟨rfl, hbound⟩ := h.loadedRead hc
      have hfits := h.fits
      change q.known .consumer ≤ k at hold
      change k ≤ n + xs.length at hle
      rw [Ne, read_eq_old_iff (hbound.trans hold) (by omega)] at hvalue
      have hne : xs ≠ [] := by
        rintro rfl
        exact hvalue (Nat.le_antisymm hle (hbound.trans hold))
      refine ⟨n, xs, rfl, rfl, h.setConsumer (by rw [hc]; rfl) (by rw [hc]; rfl) ⟨rfl, hne⟩
        (by rw [hc]; rfl) hknows ?_ hview⟩
      rw [show (m.view .consumer).2 .producer = k from hknown]
      exact Nat.lt_of_le_of_ne (hbound.trans hold) (Ne.symm hvalue)
  | @read read v hc hslot hordered =>
      obtain ⟨rfl, x, rest, rfl, hring, -⟩ := h.reading hc
      obtain rfl : x = v := Option.some.inj (hring.front.symm.trans hslot)
      rw [hc] at hfound
      refine ⟨n, x :: rest, rfl, rfl, ⟨⟨h.fits, rfl, rfl, h.values.producer, ⟨rfl, rfl⟩,
        hring.setFront (moved x)⟩, knows_access h.knows ?_ rfl rfl, h.room, hfound⟩⟩
      show taken q.consumer ≤ 1
      rw [hc]
      exact Nat.zero_le 1
  | @destroy read result hc hordered =>
      obtain ⟨rfl, rest, rfl, hring, -⟩ := h.destroying hc
      rw [hc] at hfound
      refine ⟨n, result :: rest, rfl, rfl, ⟨⟨h.fits, rfl, rfl, h.values.producer, ⟨rfl, rfl⟩,
        hring.pop⟩, knows_access h.knows ?_ rfl rfl, h.room, hfound⟩⟩
      show taken q.consumer ≤ 1
      rw [hc]
      exact Nat.le_refl 1
  | @release read result hc =>
      have hc' : (q.interleaved capacity n xs).consumer = .storing read result := hc
      have hcons := h.values.consumer
      have hring := h.values.ring
      rw [ConsumerAt, hc'] at hcons
      rw [hc'] at hring
      obtain ⟨hread, hhead⟩ := hcons
      obtain rfl : read = n % (capacity + 1) := hread
      obtain ⟨rest, rfl⟩ := cons_of_head? hhead
      have hlength : n + 1 + rest.length = n + (result :: rest).length := by
        rw [List.length_cons]
        omega
      have hknows : ∀ d, Knows (capacity + 1) (q.indices.store .consumer mReadIndex
            (nextIndex (capacity + 1) (n % (capacity + 1))) true)
          (stores (n + 1) rest) (WeakQueue.accessing { q with consumer := .idle }) d := by
        refine knows_store h.knows ?_ (nextIndex_mod hcap n) rfl hlength rfl rfl
        show taken q.consumer = 1
        rw [hc]
        rfl
      have hknown := store_known q.indices .consumer
        (nextIndex (capacity + 1) (n % (capacity + 1)))
      have hvalues := h.values
      rw [hc] at hfound
      refine ⟨n + 1, rest, rfl, rfl, ⟨⟨Nat.le_of_succ_le h.fits, rfl, rfl, ?_, trivial, hring⟩,
        hknows, ?_, hfound.trans (Nat.le_of_eq hknown.symm)⟩⟩
      · exact hvalues.producer.tail rfl (congrArg (· % (capacity + 1)) hlength)
      · rw [hlength]
        exact h.room
  | crash hcrash =>
      rcases hcrash with hzero | hc | ⟨read, hc, hslot⟩ | ⟨read, result, hc, hslot⟩
      · exact absurd hzero (Nat.succ_ne_zero capacity)
      · exact absurd hc h.consumer_ne_crashed
      · obtain ⟨rfl, x, rest, -, hring, hordered⟩ := h.reading hc
        exact absurd ⟨by rw [hring.front]; rfl, hordered⟩ hslot
      · obtain ⟨rfl, rest, -, hring, hordered⟩ := h.destroying hc
        exact absurd ⟨by rw [hring.front]; rfl, hordered⟩ hslot

/-- **What a refusal says**: after some pops, as many as the producer has just seen, the
    queue was full. -/
theorem Inv.refused (hcap : capacity + 1 < 2 ^ 64) (h : Inv capacity moved q n xs) {v : T}
    {e : Option (Side × Action Side Nat)}
    (hmoves : ProducerMoves (capacity + 1) value q (e, .refused v) q') :
    ∃ r, e = some (.producer, .load mReadIndex r true) ∧ r ≤ n
      ∧ n + xs.length = r + capacity := by
  cases hmoves with
  | @refuse v k write read m hp hload hfull =>
      obtain ⟨rfl, hold, hle, -⟩ := knows_load h.knows hload (fun _ => rfl) fun h => nomatch h
      obtain ⟨rfl, hbound⟩ := h.loadedWrite hp
      change q.known .producer ≤ k at hold
      change k ≤ n at hle
      rw [nextIndex_mod hcap, next_eq_old_iff (by omega) (by omega)] at hfull
      exact ⟨k, rfl, hle, hfull⟩

/-- **What it says that the ring is found empty**: the queue was, after as many pushes as
    the consumer has just seen. -/
theorem Inv.foundEmpty (h : Inv capacity moved q n xs) {e : Option (Side × Action Side Nat)}
    (hmoves : ConsumerMoves (capacity + 1) moved q (e, .foundEmpty) q') :
    e = some (.consumer, .load mWriteIndex n true) := by
  cases hmoves with
  | @findEmpty k read m hc hload =>
      obtain ⟨hread, hold, hle, -⟩ := knows_load h.knows hload (fun _ => rfl) fun h => nomatch h
      obtain ⟨hnow, hbound⟩ := h.loadedRead hc
      have hfits := h.fits
      change q.known .consumer ≤ k at hold
      change k ≤ n + xs.length at hle
      rw [hnow, read_eq_old_iff (hbound.trans hold) (by omega)] at hread
      rw [hread]

/-! ## Whole runs -/

variable {tr : List (WeakEvent T)}

/-- A step of the queue, by the thread that takes it. -/
theorem step_moves (hcap : capacity + 1 < 2 ^ 64)
    (hstep : (weakQueues capacity moved).step q a q') :
    (∃ value, ProducerMoves (capacity + 1) value q a q')
      ∨ ConsumerMoves (capacity + 1) moved q a q' := by
  rw [← ringSize_eq hcap]
  obtain ⟨k, ⟨value, hstep⟩ | hstep⟩ := hstep
  · exact Or.inl ⟨value, producer_moves hstep⟩
  · exact Or.inr (consumer_moves hstep)

/-- The accesses of a run are a run of the memory. -/
theorem run_memory (hcap : capacity + 1 < 2 ^ 64) (h : Run (weakQueues capacity moved) tr q) :
    Run (memories id fun _ => 0) (accesses tr) q.indices := by
  refine Run.invariant (I := fun tr q => Run (memories id fun _ => 0) (accesses tr) q.indices)
    ?_ ?_ h
  · rintro q rfl
    exact .start rfl
  · rintro tr q ⟨e, event⟩ q' - hrun hstep
    have hmemory : MemoryStep q.indices e q'.indices := by
      rcases step_moves hcap hstep with ⟨value, hmoves⟩ | hmoves
      · exact hmoves.memoryStep
      · exact hmoves.memoryStep
    rw [accesses, observed_concat, ← accesses]
    cases e with
    | none =>
        rw [show q'.indices = q.indices from hmemory]
        exact (List.append_nil (accesses tr)).symm ▸ hrun
    | some e => exact hrun.snoc hmemory

/-- The invariant of a run: the channel has done what was not in vain. -/
theorem run_inv (hcap : capacity + 1 < 2 ^ 64) (h : Run (weakQueues capacity moved) tr q) :
    ∃ n xs, Inv capacity moved q n xs ∧ n = (received (events tr)).length
      ∧ Run (channel T capacity) ((events tr).map quiet) xs := by
  refine Run.invariant (I := fun tr q => ∃ n xs, Inv capacity moved q n xs
    ∧ n = (received (events tr)).length ∧ Run (channel T capacity) ((events tr).map quiet) xs)
    ?_ ?_ h
  · rintro q rfl
    exact ⟨0, [], inv_construct capacity moved, rfl, .start rfl⟩
  · rintro tr q a q' - ⟨n, xs, hinv, hn, hrun⟩ hstep
    have hevents : events (tr ++ [a]) = events tr ++ [a.2] := List.map_append
    have hreceived : (received (events (tr ++ [a]))).length
        = n + a.2.receives.toList.length := by
      rw [hevents, received, observed_concat, ← received, List.length_append, hn]
    rw [hevents, List.map_append, ← hevents, hreceived]
    rcases step_moves hcap hstep with ⟨value, hmoves⟩ | hmoves
    · obtain ⟨xs', hchannel, hnone, hinv'⟩ := producer_step hcap hinv hmoves
      rw [hnone]
      exact ⟨n, xs', hinv', rfl, hrun.snoc hchannel⟩
    · obtain ⟨n', xs', hchannel, hn', hinv'⟩ := consumer_step hcap hinv hmoves
      exact ⟨n', xs', hinv', hn', hrun.snoc hchannel⟩

theorem sent_quiet (as : List (Event T)) : sent (as.map quiet) = sent as := by
  rw [sent, sent, observed, observed, List.filterMap_map]
  exact List.filterMap_congr fun a _ => by cases a <;> rfl

theorem received_quiet (as : List (Event T)) : received (as.map quiet) = received as := by
  rw [received, received, observed, observed, List.filterMap_map]
  exact List.filterMap_congr fun a _ => by cases a <;> rfl

/-- **The memory orders suffice**: in every run of one producer and one consumer, whatever
    old indices their loads return, any two accesses of a slot are ordered by
    happens-before, and neither thread runs into undefined behaviour. -/
theorem runs_race_free (hcap : capacity + 1 < 2 ^ 64)
    (h : Run (weakQueues capacity moved) tr q) :
    RaceFree (accesses tr) ∧ q.producer ≠ .crashed ∧ q.consumer ≠ .crashed := by
  obtain ⟨n, xs, hinv, -, -⟩ := run_inv hcap h
  exact ⟨run_raceFree (run_memory hcap h), hinv.producer_ne_crashed, hinv.consumer_ne_crashed⟩

/-- A queue of one: a value is pushed and popped, and the next one is refused, since the
    producer still sees the old read index. -/
def staleRefusal : List (WeakEvent Nat) :=
  [(some (.producer, .load mWriteIndex 0 false), .internal),
    (some (.producer, .load mReadIndex 0 true), .internal),
    (some (.producer, .access 0), .internal),
    (some (.producer, .store mWriteIndex 1 true), .pushed 5),
    (some (.consumer, .load mReadIndex 0 false), .internal),
    (some (.consumer, .load mWriteIndex 1 true), .internal),
    (some (.consumer, .access 0), .internal),
    (some (.consumer, .access 0), .internal),
    (some (.consumer, .store mReadIndex 1 true), .popped 5),
    (some (.producer, .load mWriteIndex 1 false), .internal),
    (some (.producer, .load mReadIndex 0 true), .refused 6)]

theorem run_staleRefusal : ∃ q, Run (weakQueues 1 fun _ => 0) staleRefusal q := by
  have hstart : Run (weakQueues 1 fun _ => 0) [] (WeakQueue.construct : WeakQueue Nat) :=
    .start rfl
  have hpush := (((hstart.snoc ⟨0, .inl ⟨5, rfl⟩⟩).snoc ⟨0, .inl ⟨5, rfl⟩⟩).snoc
    ⟨0, .inl ⟨5, rfl⟩⟩).snoc ⟨0, .inl ⟨5, rfl⟩⟩
  have hpop := ((((hpush.snoc ⟨0, .inr rfl⟩).snoc ⟨1, .inr rfl⟩).snoc ⟨0, .inr rfl⟩).snoc
    ⟨0, .inr rfl⟩).snoc ⟨0, .inr rfl⟩
  exact ⟨_, (hpop.snoc ⟨1, .inl ⟨6, rfl⟩⟩).snoc ⟨0, .inl ⟨6, rfl⟩⟩⟩

theorem staleRefusal_race_free : RaceFree (accesses staleRefusal) := by
  obtain ⟨q, hrun⟩ := run_staleRefusal
  exact (runs_race_free (by decide) hrun).1

/-- **First in, first out under release and acquire.**  The values popped are a prefix of
    the values pushed, and at most `capacity` are on the way.  A value is refused only if
    the queue was full when as many values had been popped as the loaded index says, and
    the ring is found empty only if it was when as many had been pushed. -/
theorem runs_keep_order (hcap : capacity + 1 < 2 ^ 64)
    (h : Run (weakQueues capacity moved) tr q) :
    (∃ xs, sent (events tr) = received (events tr) ++ xs ∧ xs.length ≤ capacity)
      ∧ (∀ e v q', (weakQueues capacity moved).step q (e, .refused v) q' →
          ∃ r, e = some (.producer, .load mReadIndex r true)
            ∧ r ≤ (received (events tr)).length
            ∧ (sent (events tr)).length = r + capacity)
      ∧ (∀ e q', (weakQueues capacity moved).step q (e, .foundEmpty) q' →
          ∃ w, e = some (.consumer, .load mWriteIndex w true)
            ∧ w ≤ (sent (events tr)).length ∧ (received (events tr)).length = w) := by
  obtain ⟨n, xs, hinv, hn, hrun⟩ := run_inv hcap h
  obtain ⟨hsent, hlen⟩ := run_conserves hrun
  rw [sent_quiet, received_quiet] at hsent
  have hlength : (sent (events tr)).length = n + xs.length := by
    rw [hsent, List.length_append, hn]
  refine ⟨⟨xs, hsent, hlen⟩, ?_, ?_⟩
  · intro e v q' hstep
    rw [← hn, hlength]
    rcases step_moves hcap hstep with ⟨value, hmoves⟩ | hmoves
    · exact hinv.refused hcap hmoves
    · cases hmoves
  · intro e q' hstep
    rw [← hn, hlength]
    rcases step_moves hcap hstep with ⟨value, hmoves⟩ | hmoves
    · cases hmoves
    · exact ⟨n, hinv.foundEmpty hmoves, Nat.le_add_right _ _, rfl⟩

theorem staleRefusal_keeps_order :
    ∃ xs, sent (events staleRefusal) = received (events staleRefusal) ++ xs ∧ xs.length ≤ 1 := by
  obtain ⟨q, hrun⟩ := run_staleRefusal
  exact (runs_keep_order (by decide) hrun).1

end LFSPSCQueue.Weak
