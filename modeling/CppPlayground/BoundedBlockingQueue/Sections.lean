import CppPlayground.Lib.CriticalSections
import CppPlayground.BoundedBlockingQueue.Fifo

/-! # `BoundedBlockingQueue`: `m_mutex` orders memory

    `m_queue` is no atomic object: its threads may touch it only if `m_mutex` orders what
    they do.  A step acquires the mutex, releases it (`wait` does so too, and so does a
    `unique_lock` on the way out of a call that throws), reads or changes `m_queue`, or does
    none of these; the condition variables order nothing.  So the accesses are in critical
    sections (`moves_turn`), and elements are handed over safely. -/

namespace BoundedBlockingQueue

open Transition Events CriticalSections

variable {I T : Type} {capacity : Nat} {s s' : State I T} {t : I}

/-- What a thread at this point does next with `m_mutex` and `m_queue`.  The predicates of
    the two `wait`s read `m_queue`. -/
def Point.kind : Point T → Kind
  | .locking _ | .woken _ => .acquire
  | .checking _ _ | .operating _ _ => .access
  | .sleepy _ | .unlocking _ _ | .unwinding _ => .release
  | .idle | .asleep _ | .notifying _ _ | .crashed => .other

/-- A step, and its kind. -/
structure Act (I T : Type) where
  label : Label I T
  kind : Kind

def Act.thread (x : Act I T) : I := x.label.1

/-- Steps of one thread are ordered, and acquiring `m_mutex` synchronises with whoever has
    released it before. -/
def Synchronises (x y : Act I T) : Prop :=
  x.thread = y.thread ∨ (x.kind = .release ∧ y.kind = .acquire)

/-- The elements inserted and removed by these steps, in order. -/
def insertedBy (tr : List (Act I T)) : List T := inserted (tr.map Act.label)

def removedBy (tr : List (Act I T)) : List T := removed (tr.map Act.label)

/-- Event `i` is event `j`, or an earlier one of its thread. -/
def Earlier (tr : List (Act I T)) (i j : Nat) : Prop :=
  i ≤ j ∧ ∃ x y, tr[i]? = some x ∧ tr[j]? = some y ∧ x.thread = y.thread

/-- For some `k`, event `i` is the `k`-th insertion and event `j` the `k`-th removal. -/
def HandsOver (tr : List (Act I T)) (i j : Nat) : Prop :=
  ∃ x y, tr[i]? = some x ∧ tr[j]? = some y
    ∧ x.label.2.2.inserts ≠ none ∧ y.label.2.2.removes ≠ none
    ∧ (insertedBy (tr.take i)).length = (removedBy (tr.take j)).length

theorem Earlier.precedes {tr : List (Act I T)} {i j : Nat} (h : Earlier tr i j) :
    Precedes Synchronises tr i j := by
  obtain ⟨hij, x, y, hx, hy, hthread⟩ := h
  exact precedes_of_sync hx hy hij (Or.inl hthread)

variable [DecidableEq I]

section Turns

variable {ch : Choice I T} {e : Event T}

/-- A step keeps to the mutex. -/
theorem moves_turn (hex : Exclusive capacity s) (hmoves : Moves capacity s t ch e s') :
    Turn t (s.point t).kind s.mMutex s'.mMutex := by
  have hheld : (s.point t).holds = true → s.mMutex = some t := (hex.holder t).mp
  cases hmoves with
  | lock call hp hm | relock call hp hm =>
      rw [hp, hm]
      exact .acquire
  | accept call slept hp hr | refuse call slept hp hr | insert call slept value hp hside
    | remove call slept value rest hp hside hq | crash call slept hp hside hq
    | fail call slept left hp =>
      have hm : s.mMutex = some t := hheld (by rw [hp]; rfl)
      rw [hp]
      show Turn t .access s.mMutex s.mMutex
      rw [hm]
      exact .access
  | sleep call hp | unlock call result hp | unwind call hp =>
      have hm : s.mMutex = some t := hheld (by rw [hp]; rfl)
      rw [hp, hm]
      exact .release
  | call call hp | wakeUp call hp | notifyOne call call' result u hp hu hside
    | notifyNone call result hp hu =>
      rw [hp]
      exact .other

omit [DecidableEq I] in
theorem insertedBy_concat (tr : List (Act I T)) (x : Act I T) :
    insertedBy (tr ++ [x]) = insertedBy tr ++ x.label.2.2.inserts.toList := by
  rw [insertedBy, List.map_append]
  exact observed_concat _ _ _

omit [DecidableEq I] in
theorem removedBy_concat (tr : List (Act I T)) (x : Act I T) :
    removedBy (tr ++ [x]) = removedBy tr ++ x.label.2.2.removes.toList := by
  rw [removedBy, List.map_append]
  exact observed_concat _ _ _

/-- A step changes the length of the queue by what it inserts and removes, and removes from
    a queue with an element only. -/
theorem moves_length (hmoves : Moves capacity s t ch e s') :
    e.removes.toList.length + s'.mQueue.length = s.mQueue.length + e.inserts.toList.length
      ∧ (e.removes ≠ none → 0 < s.mQueue.length) := by
  cases hmoves with
  | insert call slept value hp hside =>
      refine ⟨?_, fun h => absurd rfl h⟩
      show 0 + (s.mQueue ++ [value]).length = s.mQueue.length + 1
      rw [List.length_append, List.length_singleton, Nat.zero_add]
  | remove call slept value rest hp hside hq =>
      rw [hq]
      exact ⟨Nat.add_comm 1 rest.length, fun _ => Nat.succ_pos _⟩
  | fail call slept left hp =>
      refine ⟨?_, fun h => absurd rfl h⟩
      show 0 + (failed s.mQueue left call).length = s.mQueue.length
      rw [length_failed, Nat.zero_add]
  | _ => exact ⟨Nat.zero_add _, fun h => absurd rfl h⟩

/-- What changes the queue is an access. -/
theorem moves_access (hmoves : Moves capacity s t ch e s')
    (h : e.inserts ≠ none ∨ e.removes ≠ none) : (s.point t).kind = .access := by
  cases hmoves with
  | insert call slept value hp hside => rw [hp]; rfl
  | remove call slept value rest hp hside hq => rw [hp]; rfl
  | _ => exact absurd h (not_or.mpr ⟨not_not.mpr rfl, not_not.mpr rfl⟩)

end Turns

/-! ## Whole runs -/

variable [Fintype I] {tr : List (Act I T)}

/-- All interleavings, with the kinds of the steps. -/
def acts (I T : Type) [DecidableEq I] [Fintype I] (capacity : Nat) :
    System (State I T) (Act I T) where
  init s := s = start
  step s x s' := (queues I T capacity).step s x.label s' ∧ x.kind = (s.point x.thread).kind

/-- Every run is one of these. -/
theorem run_acts {labels : List (Label I T)} (h : Run (queues I T capacity) labels s) :
    ∃ tr, Run (acts I T capacity) tr s ∧ tr.map Act.label = labels := by
  induction h with
  | start hi => exact ⟨[], .start hi, rfl⟩
  | @snoc labels a s s' _ hstep ih =>
      obtain ⟨tr, hrun, rfl⟩ := ih
      refine ⟨tr ++ [⟨a, (s.point a.1).kind⟩], hrun.snoc ⟨hstep, rfl⟩, ?_⟩
      rw [List.map_append, List.map_singleton]

/-- The accesses are in critical sections. -/
theorem run_sections (h : Run (acts I T capacity) tr s) :
    Exclusive capacity s ∧ Guarded Synchronises Act.thread Act.kind tr s.mMutex := by
  refine Run.invariant (I := fun tr s => Exclusive capacity s
    ∧ Guarded Synchronises Act.thread Act.kind tr s.mMutex) ?_ ?_ h
  · rintro s rfl
    exact ⟨exclusive_start capacity, guarded_nil⟩
  · rintro tr s x s' - ⟨hex, hguarded⟩ ⟨hstep, hkind⟩
    have hmoves := step_moves hstep
    refine ⟨exclusive_step hex hmoves, hguarded.snoc (fun _ _ => Or.inl)
      (fun _ _ hx hy => Or.inr ⟨hx, hy⟩) ?_⟩
    rw [hkind]
    exact moves_turn hex hmoves

/-- Before every removal there have been more insertions than removals. -/
theorem run_removes (h : Run (acts I T capacity) tr s) :
    (removedBy tr).length + s.mQueue.length = (insertedBy tr).length
      ∧ ∀ j y, tr[j]? = some y → y.label.2.2.removes ≠ none →
        (removedBy (tr.take j)).length < (insertedBy (tr.take j)).length := by
  refine Run.invariant (I := fun tr s => (removedBy tr).length + s.mQueue.length
    = (insertedBy tr).length ∧ ∀ j y, tr[j]? = some y → y.label.2.2.removes ≠ none →
      (removedBy (tr.take j)).length < (insertedBy (tr.take j)).length) ?_ ?_ h
  · rintro s rfl
    exact ⟨rfl, fun _ _ hy => absurd hy.symm (Option.some_ne_none _)⟩
  · rintro tr s x s' - ⟨hlength, hbefore⟩ ⟨hstep, -⟩
    obtain ⟨hchange, hpos⟩ := moves_length (step_moves hstep)
    constructor
    · rw [removedBy_concat, insertedBy_concat, List.length_append, List.length_append]
      omega
    · intro j y hy hremoves
      rcases getElem?_concat hy with hy | ⟨rfl, rfl⟩
      · have hj := (List.getElem?_eq_some_iff.mp hy).1
        rw [List.take_append_of_le_length (Nat.le_of_lt hj)]
        exact hbefore j y hy hremoves
      · have hsome := hpos hremoves
        rw [List.take_left]
        omega

theorem run_access (h : Run (acts I T capacity) tr s) {i : Nat} {x : Act I T}
    (hx : tr[i]? = some x) (hchanges : x.label.2.2.inserts ≠ none ∨ x.label.2.2.removes ≠ none) :
    x.kind = .access := by
  obtain ⟨s₁, s₂, -, hstep, hkind⟩ := h.step_of_mem (List.mem_of_getElem? hx)
  rw [hkind]
  exact moves_access (step_moves hstep) hchanges

omit [DecidableEq I] [Fintype I] in
theorem insertedBy_take_le (tr : List (Act I T)) {i j : Nat} (hij : i ≤ j) :
    (insertedBy (tr.take i)).length ≤ (insertedBy (tr.take j)).length :=
  (((List.take_sublist_take_left hij).map _).filterMap _).length_le

/-- **What `m_mutex` is for.**  In every interleaving, whatever throws and whoever wakes up:
    any two steps that read or change `m_queue` are ordered by happens-before; and what a
    pusher has done up to the `k`-th insertion happens before what the popper of the `k`-th
    removal does from then on. -/
theorem accesses_in_order (h : Run (acts I T capacity) tr s) :
    (∀ i j x y, tr[i]? = some x → tr[j]? = some y → x.kind = .access → y.kind = .access →
      i < j → Before Synchronises tr i j)
    ∧ ∀ i j, HandsOver tr i j → ∀ i' j', Earlier tr i' i → Earlier tr j j' →
      Before Synchronises tr i' j' := by
  have hordered := (run_sections h).2.ordered
  refine ⟨hordered, ?_⟩
  rintro i j ⟨x, y, hx, hy, hinserts, hremoves, hsame⟩ i' j' hi hj
  have hij : i < j := by
    by_contra hge
    have hle := insertedBy_take_le tr (Nat.le_of_not_lt hge)
    have hlt := (run_removes h).2 j y hy hremoves
    omega
  have hbefore := hordered i j x y hx hy (run_access h hx (Or.inl hinserts))
    (run_access h hy (Or.inr hremoves)) hij
  exact hi.precedes.before (hbefore.precedes hj.precedes)

omit [DecidableEq I] [Fintype I] in
theorem label_at {labels : List (Label I T)} (h : tr.map Act.label = labels) {i : Nat}
    {a : Label I T} (ha : labels[i]? = some a) : ∃ x, tr[i]? = some x ∧ x.label = a := by
  rw [← h, List.getElem?_map] at ha
  exact Option.map_eq_some_iff.mp ha

/-- The calls of `sleepThenPop` once more: what the pusher has done before it calls `push(7)`
    happens before the popper that it wakes returns from `pop()`. -/
theorem sleepThenPop_in_order : ∃ tr s x y, Run (acts Bool Nat 1) tr s
    ∧ tr[4]? = some x ∧ x.label = (true, .call (.push 7), .internal)
    ∧ tr[14]? = some y ∧ y.label = (false, .notify none, .returned (some 7))
    ∧ Before Synchronises tr 4 14 := by
  obtain ⟨labels, s, hexec, hcall, hinsert, hremove, hreturn, hsame⟩ : ∃ labels s,
      execute 1 quietStep (start : State Bool Nat) sleepThenPop = some (labels, s)
        ∧ labels[4]? = some (true, .call (.push 7), .internal)
        ∧ labels[7]? = some (true, .next, .inserted 7)
        ∧ labels[12]? = some (false, .next, .removed 7)
        ∧ labels[14]? = some (false, .notify none, .returned (some 7))
        ∧ (inserted (labels.take 7)).length = (removed (labels.take 12)).length :=
    ⟨_, _, rfl, rfl, rfl, rfl, rfl, rfl⟩
  have hrun := run_execute (C := fun _ _ => True) hexec fun _ _ _ => trivial
  obtain ⟨tr, hacts, hlabels⟩ := run_acts hrun.of_restrict
  obtain ⟨x, hx, hxl⟩ := label_at hlabels hcall
  obtain ⟨i, hi, hil⟩ := label_at hlabels hinsert
  obtain ⟨j, hj, hjl⟩ := label_at hlabels hremove
  obtain ⟨y, hy, hyl⟩ := label_at hlabels hreturn
  have hhands : HandsOver tr 7 12 := by
    refine ⟨i, j, hi, hj, ?_, ?_, ?_⟩
    · rw [hil]
      exact Option.some_ne_none _
    · rw [hjl]
      exact Option.some_ne_none _
    · rw [insertedBy, removedBy, List.map_take, List.map_take, hlabels]
      exact hsame
  have hpush : Earlier tr 4 7 :=
    ⟨by decide, x, i, hx, hi, by rw [Act.thread, Act.thread, hxl, hil]⟩
  have hpop : Earlier tr 12 14 :=
    ⟨by decide, j, y, hj, hy, by rw [Act.thread, Act.thread, hjl, hyl]⟩
  have hbefore := (accesses_in_order hacts).2 7 12 hhands 4 14 hpush hpop
  exact ⟨tr, s, x, y, hacts, hx, hxl, hy, hyl, hbefore⟩

end BoundedBlockingQueue
