import CppPlayground.Lib.Events

/-! # Critical sections

    Threads touch what a mutex guards only while they hold it.  Releasing a mutex
    synchronises with acquiring it later, so everything done under it is ordered by
    happens-before, whatever else the threads do.  `Turn` says what an event of a kind
    requires of the holder of the mutex and makes of it; events that keep to it are
    `Guarded`. -/

namespace CriticalSections

open Events

/-- What an event has to do with a mutex and with what it guards. -/
inductive Kind where
  | acquire
  | release
  | access
  | other
  deriving DecidableEq, Repr

variable {E I : Type} {t : I} {holder holder' : Option I}

/-- The holder of the mutex before and after an event of thread `t`. -/
inductive Turn (t : I) : Kind → Option I → Option I → Prop where
  | acquire : Turn t .acquire none (some t)
  | release : Turn t .release (some t) none
  | access : Turn t .access (some t) (some t)
  | other {holder : Option I} : Turn t .other holder holder

/-- All accesses are ordered.  Those before the last release happen before it, and it
    happens before the holder has acquired the mutex; the others are the holder's own. -/
structure Guarded (sync : E → E → Prop) (thread : E → I) (kind : E → Kind) (tr : List E)
    (holder : Option I) : Prop where
  held : ∀ t, holder = some t → ∃ a y, tr[a]? = some y ∧ thread y = t
    ∧ ∀ r z, tr[r]? = some z → kind z = .release → Before sync tr r a
  left : ∀ i x, tr[i]? = some x → kind x = .access → holder = some (thread x)
    ∨ ∃ r z, tr[r]? = some z ∧ kind z = .release ∧ Before sync tr i r
  ordered : ∀ i j x y, tr[i]? = some x → tr[j]? = some y → kind x = .access →
    kind y = .access → i < j → Before sync tr i j

variable {sync : E → E → Prop} {thread : E → I} {kind : E → Kind} {tr : List E} {e : E}

theorem Turn.holds (h : Turn t .access holder holder') : holder = some t ∧ holder' = some t := by
  cases h
  exact ⟨rfl, rfl⟩

/-- No events, and nobody holds the mutex. -/
theorem guarded_nil : Guarded sync thread kind [] none where
  held _ h := absurd h.symm (Option.some_ne_none _)
  left _ _ hx := absurd hx.symm (Option.some_ne_none _)
  ordered _ _ _ _ hx := absurd hx.symm (Option.some_ne_none _)

section Step

variable (hthread : ∀ x y, thread x = thread y → sync x y)
  (hmutex : ∀ x y, kind x = .release → kind y = .acquire → sync x y)
  (h : Guarded sync thread kind tr holder) (hturn : Turn (thread e) (kind e) holder holder')

include hmutex h hturn in
/-- Whoever acquires the mutex has synchronised with all releases, and stays so. -/
theorem Guarded.held_snoc (ht : holder' = some t) :
    ∃ a y, (tr ++ [e])[a]? = some y ∧ thread y = t
      ∧ ∀ r z, (tr ++ [e])[r]? = some z → kind z = .release → Before sync (tr ++ [e]) r a := by
  generalize hkind : kind e = k at hturn
  have hold : holder = some t → k ≠ .release → ∃ a y, (tr ++ [e])[a]? = some y ∧ thread y = t
      ∧ ∀ r z, (tr ++ [e])[r]? = some z → kind z = .release → Before sync (tr ++ [e]) r a := by
    intro hholder hk
    obtain ⟨a, y, hy, hyt, hall⟩ := h.held t hholder
    refine ⟨a, y, getElem?_snoc hy, hyt, fun r z hz hrelease => ?_⟩
    rcases getElem?_concat hz with hz | ⟨-, rfl⟩
    · exact (hall r z hz hrelease).snoc e
    · exact absurd (hkind.symm.trans hrelease) hk
  cases hturn with
  | acquire =>
      refine ⟨tr.length, e, List.getElem?_concat_length, Option.some.inj ht, ?_⟩
      intro r z hz hrelease
      rcases getElem?_concat hz with hz | ⟨-, rfl⟩
      · have hr : Precedes sync tr r r := Or.inl rfl
        exact hr.last hz (hmutex z e hrelease hkind)
      · rw [hkind] at hrelease
        cases hrelease
  | release => cases ht
  | access => exact hold ht Kind.noConfusion
  | other => exact hold ht Kind.noConfusion

include hthread h hturn in
/-- An access is the holder's, or happens before a release. -/
theorem Guarded.left_snoc {i : Nat} {x : E} (hx : (tr ++ [e])[i]? = some x)
    (haccess : kind x = .access) : holder' = some (thread x)
      ∨ ∃ r z, (tr ++ [e])[r]? = some z ∧ kind z = .release ∧ Before sync (tr ++ [e]) i r := by
  rcases getElem?_concat hx with hx | ⟨-, rfl⟩
  · rcases h.left i x hx haccess with hheld | ⟨r, z, hz, hrelease, hir⟩
    · generalize hkind : kind e = k at hturn
      subst hheld
      generalize hu : thread e = u at hturn
      cases hturn with
      | release =>
          have hi : Precedes sync tr i i := Or.inl rfl
          exact Or.inr ⟨tr.length, e, List.getElem?_concat_length, hkind,
            hi.last hx (hthread x e hu.symm)⟩
      | access => exact Or.inl rfl
      | other => exact Or.inl rfl
    · exact Or.inr ⟨r, z, getElem?_snoc hz, hrelease, hir.snoc e⟩
  · rw [haccess] at hturn
    exact Or.inl hturn.holds.2

include hthread h in
/-- All earlier accesses happen before one by the holder. -/
theorem Guarded.before_access (hholder : holder = some (thread e)) {i : Nat} {x : E}
    (hx : tr[i]? = some x) (haccess : kind x = .access) :
    Before sync (tr ++ [e]) i tr.length := by
  have hi : Precedes sync tr i i := Or.inl rfl
  rcases h.left i x hx haccess with hheld | ⟨r, z, hz, hrelease, hir⟩
  · exact hi.last hx (hthread x e (Option.some.inj (hheld.symm.trans hholder)))
  · obtain ⟨a, y, hy, hyt, hall⟩ := h.held _ hholder
    have hia : Precedes sync tr i a := Or.inr (hir.trans (hall r z hz hrelease))
    exact hia.last hy (hthread y e hyt)

include hthread hmutex in
/-- **The step lemma.** -/
theorem Guarded.snoc (h : Guarded sync thread kind tr holder)
    (hturn : Turn (thread e) (kind e) holder holder') :
    Guarded sync thread kind (tr ++ [e]) holder' where
  held _ ht := h.held_snoc hmutex hturn ht
  left _ _ hx haccess := h.left_snoc hthread hturn hx haccess
  ordered i j x y hx hy hxa hya hij := by
    rcases getElem?_concat hy with hy | ⟨rfl, rfl⟩
    · have hi := (List.getElem?_eq_some_iff.mp hy).1
      rcases getElem?_concat hx with hx | ⟨rfl, -⟩
      · exact (h.ordered i j x y hx hy hxa hya hij).snoc e
      · exact absurd (Nat.lt_trans hij hi) (Nat.lt_irrefl _)
    · rcases getElem?_concat hx with hx | ⟨rfl, -⟩
      · rw [hya] at hturn
        exact h.before_access hthread hturn.holds.1 hx hxa
      · exact absurd hij (Nat.lt_irrefl _)

end Step

end CriticalSections
