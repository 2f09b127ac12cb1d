import Mathlib.Logic.Relation

/-! # Happens-before

    The events of a run are in one order, but an event has not happened before every later
    one, only before those that synchronise with it, directly or by way of others.  With
    `sync x y` an event `y` synchronises with every earlier event `x`.  The order of two
    events does not depend on what comes after them (`Before.snoc`). -/

namespace Events

variable {E : Type} {sync : E → E → Prop} {tr : List E} {e x y : E} {i j k : Nat}

/-- Event `j` synchronises with the earlier event `i`. -/
def Edge (sync : E → E → Prop) (tr : List E) (i j : Nat) : Prop :=
  i < j ∧ ∃ x y, tr[i]? = some x ∧ tr[j]? = some y ∧ sync x y

/-- `i` happens before `j`. -/
def Before (sync : E → E → Prop) (tr : List E) : Nat → Nat → Prop :=
  Relation.TransGen (Edge sync tr)

/-- `i` is `j`, or happens before it. -/
def Precedes (sync : E → E → Prop) (tr : List E) (i j : Nat) : Prop :=
  i = j ∨ Before sync tr i j

theorem Precedes.trans (hij : Precedes sync tr i j) (hjk : Precedes sync tr j k) :
    Precedes sync tr i k := by
  rcases hij with rfl | hij
  · exact hjk
  · rcases hjk with rfl | hjk
    · exact Or.inr hij
    · exact Or.inr (hij.trans hjk)

theorem Precedes.before (hij : Precedes sync tr i j) (hjk : Before sync tr j k) :
    Before sync tr i k := by
  rcases hij with rfl | hij
  · exact hjk
  · exact hij.trans hjk

theorem Before.precedes (hij : Before sync tr i j) (hjk : Precedes sync tr j k) :
    Before sync tr i k := by
  rcases hjk with rfl | hjk
  · exact hij
  · exact hij.trans hjk

/-- Of two events that synchronise, the earlier one precedes the other. -/
theorem precedes_of_sync (hx : tr[i]? = some x) (hy : tr[j]? = some y) (hij : i ≤ j)
    (hsync : sync x y) : Precedes sync tr i j := by
  rcases Nat.eq_or_lt_of_le hij with heq | hlt
  · exact Or.inl heq
  · exact Or.inr (.single ⟨hlt, x, y, hx, hy, hsync⟩)

/-! ## One more event -/

/-- An event is an old one or the last. -/
theorem getElem?_concat (h : (tr ++ [e])[k]? = some y) :
    tr[k]? = some y ∨ (k = tr.length ∧ y = e) := by
  by_cases hk : k < tr.length
  · rw [List.getElem?_append_left hk] at h
    exact Or.inl h
  · obtain ⟨hlt, heq⟩ := List.getElem?_eq_some_iff.mp h
    rw [List.length_append, List.length_singleton] at hlt
    obtain rfl : k = tr.length := by omega
    rw [List.getElem?_concat_length] at h
    exact Or.inr ⟨rfl, (Option.some.inj h).symm⟩

theorem getElem?_snoc (h : tr[i]? = some x) : (tr ++ [e])[i]? = some x := by
  obtain ⟨hi, -⟩ := List.getElem?_eq_some_iff.mp h
  rwa [List.getElem?_append_left hi]

theorem Edge.snoc (h : Edge sync tr i j) (e : E) : Edge sync (tr ++ [e]) i j := by
  obtain ⟨hlt, x, y, hx, hy, hxy⟩ := h
  exact ⟨hlt, x, y, getElem?_snoc hx, getElem?_snoc hy, hxy⟩

theorem Before.snoc (h : Before sync tr i j) (e : E) : Before sync (tr ++ [e]) i j :=
  Relation.TransGen.mono (fun _ _ (hij : Edge sync tr _ _) => hij.snoc e) i j h

theorem Precedes.snoc (h : Precedes sync tr i j) (e : E) : Precedes sync (tr ++ [e]) i j :=
  h.imp_right fun h => h.snoc e

/-- What precedes an event that the last one synchronises with happens before the last. -/
theorem Precedes.last (h : Precedes sync tr i j) (hx : tr[j]? = some x) (hsync : sync x e) :
    Before sync (tr ++ [e]) i tr.length := by
  obtain ⟨hj, -⟩ := List.getElem?_eq_some_iff.mp hx
  have hlast : Edge sync (tr ++ [e]) j tr.length :=
    ⟨hj, x, e, getElem?_snoc hx, List.getElem?_concat_length, hsync⟩
  rcases h with rfl | h
  · exact .single hlast
  · exact (h.snoc e).tail hlast

end Events
