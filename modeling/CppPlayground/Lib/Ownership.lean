import Mathlib.Data.List.Nodup
import Mathlib.Logic.Equiv.Basic
import Mathlib.Logic.Function.Basic

/-! # Unique ownership

    Owners hold resources, at most one each.  A resource is adopted from outside, passed
    on from owner to owner, and in the end freed or released to the outside again.  A
    `Ledger` records who holds what and what has become of the resources adopted so far;
    its operations are what owners do.

    `Sound` is the law of the ledger: what was adopted is, up to order, what is held
    followed by what was freed and what was released.  Where no resource is adopted
    twice, each is in one of these places, once. -/

namespace Ownership

variable {H A : Type}

/-- Who holds what, and what happened to the resources, in order. -/
structure Ledger (H A : Type) where
  held : H → Option A
  adopted : List A
  freed : List A
  released : List A

/-- A list of the owners that hold something, with what they hold. -/
structure Lists (held : H → Option A) (holding : List (H × A)) : Prop where
  keys : (holding.map Prod.fst).Nodup
  mem_iff : ∀ h p, held h = some p ↔ (h, p) ∈ holding

/-- The law of the ledger. -/
def Ledger.Sound (l : Ledger H A) : Prop :=
  ∃ holding, Lists l.held holding
    ∧ l.adopted.Perm (holding.map Prod.snd ++ (l.freed ++ l.released))

variable {l : Ledger H A} {held : H → Option A} {holding : List (H × A)} {this other : H}
  {p : A}

theorem lists_nil : Lists (fun _ : H => (none : Option A)) [] :=
  ⟨List.nodup_nil, fun _ _ => ⟨nofun, nofun⟩⟩

/-- Nothing has been adopted. -/
theorem sound_empty : (⟨fun _ => none, [], [], []⟩ : Ledger H A).Sound :=
  ⟨[], lists_nil, List.Perm.nil⟩

theorem Lists.not_mem_keys (h : Lists held holding) (hnone : held this = none) :
    this ∉ holding.map Prod.fst := by
  intro hmem
  obtain ⟨⟨k, p⟩, he, rfl⟩ := List.mem_map.mp hmem
  rw [(h.mem_iff k p).mpr he] at hnone
  exact nomatch hnone

/-! ## What the law says -/

theorem Ledger.Sound.nodup (h : l.Sound) (hdistinct : l.adopted.Nodup) :
    ∃ holding, Lists l.held holding
      ∧ (holding.map Prod.snd ++ (l.freed ++ l.released)).Nodup := by
  obtain ⟨holding, hlists, hperm⟩ := h
  exact ⟨holding, hlists, hperm.nodup_iff.mp hdistinct⟩

/-- Two owners do not hold the same resource. -/
theorem Ledger.Sound.unique (h : l.Sound) (hdistinct : l.adopted.Nodup) {h₁ h₂ : H}
    (h₁p : l.held h₁ = some p) (h₂p : l.held h₂ = some p) : h₁ = h₂ := by
  obtain ⟨holding, hlists, hnodup⟩ := h.nodup hdistinct
  have hmem₁ := (hlists.mem_iff h₁ p).mp h₁p
  have hmem₂ := (hlists.mem_iff h₂ p).mp h₂p
  have hvalues := (List.nodup_append.mp hnodup).1
  have heq := List.inj_on_of_nodup_map hvalues hmem₁ hmem₂ rfl
  exact congrArg Prod.fst heq

/-- No resource is freed twice. -/
theorem Ledger.Sound.freed_nodup (h : l.Sound) (hdistinct : l.adopted.Nodup) :
    l.freed.Nodup := by
  obtain ⟨holding, -, hnodup⟩ := h.nodup hdistinct
  exact (List.nodup_append.mp (List.nodup_append.mp hnodup).2.1).1

/-- A resource that was adopted and is not in the other places is held. -/
theorem Ledger.Sound.exists_holder (h : l.Sound) (hp : p ∈ l.adopted) (hfreed : p ∉ l.freed)
    (hreleased : p ∉ l.released) : ∃ k, l.held k = some p := by
  obtain ⟨holding, hlists, hperm⟩ := h
  rcases List.mem_append.mp (hperm.mem_iff.mp hp) with hheld | hgone
  · obtain ⟨⟨k, q⟩, hmem, rfl⟩ := List.mem_map.mp hheld
    exact ⟨k, (hlists.mem_iff k q).mpr hmem⟩
  · rcases List.mem_append.mp hgone with hmem | hmem
    · exact absurd hmem hfreed
    · exact absurd hmem hreleased

/-- Once nobody holds anything, what was adopted is freed or released, and not both. -/
theorem Ledger.Sound.settled (h : l.Sound) (hdistinct : l.adopted.Nodup)
    (hnone : ∀ k, l.held k = none) (hp : p ∈ l.adopted) : p ∈ l.freed ↔ p ∉ l.released := by
  obtain ⟨holding, hlists, hperm⟩ := h
  have hempty : holding = [] := by
    refine List.eq_nil_iff_forall_not_mem.mpr ?_
    rintro ⟨k, q⟩ hmem
    have := (hlists.mem_iff k q).mpr hmem
    rw [hnone k] at this
    exact nomatch this
  rw [hempty, List.map_nil, List.nil_append] at hperm
  have hdisjoint := (List.nodup_append.mp (hperm.nodup_iff.mp hdistinct)).2.2
  constructor
  · exact fun hfreed hreleased => hdisjoint p hfreed p hreleased rfl
  · intro hnot
    rcases List.mem_append.mp (hperm.mem_iff.mp hp) with hfreed | hreleased
    · exact hfreed
    · exact absurd hreleased hnot

/-- The owners are renamed. -/
theorem Lists.reindex (h : Lists held holding) (e : H ≃ H) :
    Lists (held ∘ e) (holding.map fun r => (e.symm r.1, r.2)) where
  keys := by
    rw [List.map_map, show Prod.fst ∘ (fun r : H × A => (e.symm r.1, r.2)) = e.symm ∘ Prod.fst
      from rfl, ← List.map_map]
    exact h.keys.map e.symm.injective
  mem_iff k q := by
    rw [List.mem_map]
    constructor
    · intro hk
      exact ⟨(e k, q), (h.mem_iff (e k) q).mp hk, by rw [e.symm_apply_apply]⟩
    · rintro ⟨⟨k', q'⟩, hmem, heq⟩
      obtain ⟨rfl, rfl⟩ := Prod.mk.inj heq
      show held (e (e.symm k')) = some q'
      rw [e.apply_symm_apply]
      exact (h.mem_iff k' q').mpr hmem

/-! ## What owners do -/

section Operations

variable [DecidableEq H]

/-- Take over a resource from outside. -/
def Ledger.adopt (l : Ledger H A) (this : H) (p : A) : Ledger H A :=
  { l with held := Function.update l.held this (some p), adopted := l.adopted ++ [p] }

/-- Take over what another owner holds. -/
def Ledger.transfer (l : Ledger H A) (this other : H) : Ledger H A :=
  { l with held := Function.update (Function.update l.held this (l.held other)) other none }

/-- Exchange what two owners hold. -/
def Ledger.swap (l : Ledger H A) (this other : H) : Ledger H A :=
  { l with held := l.held ∘ Equiv.swap this other }

/-- Free the resource that is held. -/
def Ledger.free (l : Ledger H A) (this : H) : Ledger H A :=
  { l with
    held := Function.update l.held this none
    freed := l.freed ++ (l.held this).toList }

/-- Release the resource that is held. -/
def Ledger.release (l : Ledger H A) (this : H) : Ledger H A :=
  { l with
    held := Function.update l.held this none
    released := l.released ++ (l.held this).toList }

theorem Ledger.free_of_none (h : l.held this = none) : l.free this = l := by
  rw [free, h, Option.toList_none, List.append_nil, ← h, Function.update_eq_self]

theorem Ledger.release_of_none (h : l.held this = none) : l.release this = l := by
  rw [release, h, Option.toList_none, List.append_nil, ← h, Function.update_eq_self]

/-- One more owner. -/
theorem Lists.insert (h : Lists held holding) (hnone : held this = none) (p : A) :
    Lists (Function.update held this (some p)) ((this, p) :: holding) where
  keys := List.nodup_cons.mpr ⟨h.not_mem_keys hnone, h.keys⟩
  mem_iff k q := by
    rw [List.mem_cons, Prod.mk.injEq]
    by_cases hk : k = this
    · subst hk
      rw [Function.update_self, ← h.mem_iff, hnone, Option.some.injEq, eq_comm]
      simp
    · rw [Function.update_of_ne hk, h.mem_iff]
      simp [hk]

/-- One owner less. -/
theorem Lists.remove (h : Lists held holding) (hheld : held this = some p) :
    ∃ rest, holding.Perm ((this, p) :: rest) ∧ Lists (Function.update held this none) rest := by
  obtain ⟨pre, post, rfl⟩ := List.append_of_mem ((h.mem_iff this p).mp hheld)
  refine ⟨pre ++ post, List.perm_middle, ?_⟩
  have hkeys := h.keys
  rw [List.map_append, List.map_cons] at hkeys
  obtain ⟨hnot, hrest⟩ := List.nodup_cons.mp (List.nodup_middle.mp hkeys)
  rw [← List.map_append] at hnot hrest
  refine ⟨hrest, ?_⟩
  intro k q
  by_cases hk : k = this
  · subst hk
    rw [Function.update_self]
    refine iff_of_false nofun ?_
    intro hmem
    exact hnot (List.mem_map.mpr ⟨(k, q), hmem, rfl⟩)
  · rw [Function.update_of_ne hk, h.mem_iff, List.perm_middle.mem_iff, List.mem_cons]
    exact or_iff_right fun heq => hk (congrArg Prod.fst heq)

theorem Ledger.Sound.adopt (h : l.Sound) (hnone : l.held this = none) (p : A) :
    (l.adopt this p).Sound := by
  obtain ⟨holding, hlists, hperm⟩ := h
  refine ⟨(this, p) :: holding, hlists.insert hnone p, ?_⟩
  exact (List.perm_append_singleton p l.adopted).trans (hperm.cons p)

theorem Ledger.Sound.transfer (h : l.Sound) (hne : this ≠ other) (hnone : l.held this = none) :
    (l.transfer this other).Sound := by
  obtain ⟨holding, hlists, hperm⟩ := h
  cases hother : l.held other with
  | none =>
      refine ⟨holding, ?_, hperm⟩
      show Lists (Function.update (Function.update l.held this (l.held other)) other none) _
      rw [hother, ← hnone, Function.update_eq_self, hnone, ← hother, Function.update_eq_self]
      exact hlists
  | some p =>
      obtain ⟨rest, hrest, hlists'⟩ := hlists.remove hother
      refine ⟨(this, p) :: rest, ?_, hperm.trans ((hrest.map _).append_right _)⟩
      show Lists (Function.update (Function.update l.held this (l.held other)) other none) _
      rw [hother, Function.update_comm hne]
      exact hlists'.insert (by rwa [Function.update_of_ne hne]) p

theorem Ledger.Sound.swap (h : l.Sound) (this other : H) : (l.swap this other).Sound := by
  obtain ⟨holding, hlists, hperm⟩ := h
  refine ⟨_, hlists.reindex (Equiv.swap this other), ?_⟩
  rw [List.map_map]
  exact hperm

theorem Ledger.Sound.free (h : l.Sound) (this : H) : (l.free this).Sound := by
  cases hthis : l.held this with
  | none => rwa [Ledger.free_of_none hthis]
  | some p =>
      obtain ⟨holding, hlists, hperm⟩ := h
      obtain ⟨rest, hrest, hlists'⟩ := hlists.remove hthis
      refine ⟨rest, hlists', hperm.trans (((hrest.map _).append_right _).trans ?_)⟩
      show (p :: (rest.map Prod.snd ++ (l.freed ++ l.released))).Perm
        (rest.map Prod.snd ++ (l.freed ++ (l.held this).toList ++ l.released))
      rw [hthis, Option.toList_some, List.append_assoc, List.singleton_append]
      exact (List.perm_middle.symm).trans ((List.perm_middle.symm).append_left _)

theorem Ledger.Sound.release (h : l.Sound) (this : H) : (l.release this).Sound := by
  cases hthis : l.held this with
  | none => rwa [Ledger.release_of_none hthis]
  | some p =>
      obtain ⟨holding, hlists, hperm⟩ := h
      obtain ⟨rest, hrest, hlists'⟩ := hlists.remove hthis
      refine ⟨rest, hlists', hperm.trans (((hrest.map _).append_right _).trans ?_)⟩
      show (p :: (rest.map Prod.snd ++ (l.freed ++ l.released))).Perm
        (rest.map Prod.snd ++ (l.freed ++ (l.released ++ (l.held this).toList)))
      have hlast := (List.perm_append_singleton p
        (rest.map Prod.snd ++ (l.freed ++ l.released))).symm
      rw [List.append_assoc, List.append_assoc] at hlast
      rw [hthis, Option.toList_some]
      exact hlast

end Operations

end Ownership
