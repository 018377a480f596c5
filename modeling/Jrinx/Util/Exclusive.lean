import Mathlib.Tactic

/-!
This module contains the notion of resources that have one owner each: every owner holds a list of
resources, all of them are live, and none is held twice.
-/

universe u v

/--
Every resource that is held is live, and it is held at one place of one owner.
-/
structure Exclusive {ι : Type u} {α : Type v} (holds : ι → List α) (live : α → Prop) : Prop where
  live_of_mem : ∀ {i a}, a ∈ holds i → live a
  nodup : ∀ i, (holds i).Nodup
  unique : ∀ {i j a}, a ∈ holds i → a ∈ holds j → i = j

namespace Exclusive

variable {ι : Type u} {α : Type v} {holds : ι → List α} {live : α → Prop} {i j : ι} {a : α}
  {l l' : List α}

theorem mono {live' : α → Prop} (h : Exclusive holds live) (himp : ∀ i, ∀ a ∈ holds i, live' a)
    : Exclusive holds live' :=
  ⟨fun hmem => himp _ _ hmem, h.nodup, h.unique⟩

variable [DecidableEq ι]

theorem mem_update {b : α} (h : b ∈ Function.update holds i l j)
    : j = i ∧ b ∈ l ∨ j ≠ i ∧ b ∈ holds j := by
  by_cases hji : j = i
  . subst hji
    simp only [Function.update_self] at h
    exact .inl ⟨rfl, h⟩
  . rw [Function.update_of_ne hji] at h
    exact .inr ⟨hji, h⟩

theorem shrink (h : Exclusive holds live) (hsub : ∀ a ∈ l, a ∈ holds i) (hl : l.Nodup)
    : Exclusive (Function.update holds i l) live := by
  have hmem {j : ι} {b : α} (hb : b ∈ Function.update holds i l j) : b ∈ holds j := by
    rcases mem_update hb with ⟨rfl, hin⟩ | ⟨_, hin⟩
    . exact hsub b hin
    . exact hin
  refine ⟨fun hb => h.live_of_mem (hmem hb), ?_, fun hb hb' => h.unique (hmem hb) (hmem hb')⟩
  intro j
  by_cases hji : j = i
  . rw [hji, Function.update_self]
    exact hl
  . rw [Function.update_of_ne hji]
    exact h.nodup j

theorem gain (h : Exclusive holds live) (hlive : live a) (hfree : ∀ j, a ∉ holds j)
    (hl : l.Perm (a :: holds i))
    : Exclusive (Function.update holds i l) live := by
  have hmem {j : ι} {b : α} (hb : b ∈ Function.update holds i l j)
      : b = a ∧ j = i ∨ b ∈ holds j := by
    rcases mem_update hb with ⟨rfl, hin⟩ | ⟨_, hin⟩
    . rcases List.mem_cons.mp (hl.mem_iff.mp hin) with rfl | hold
      . exact .inl ⟨rfl, rfl⟩
      . exact .inr hold
    . exact .inr hin
  constructor
  . intro j b hb
    rcases hmem hb with ⟨rfl, _⟩ | hb
    . exact hlive
    . exact h.live_of_mem hb
  . intro j
    by_cases hji : j = i
    . rw [hji, Function.update_self, hl.nodup_iff]
      exact List.nodup_cons.mpr ⟨hfree i, h.nodup i⟩
    . rw [Function.update_of_ne hji]
      exact h.nodup j
  . intro j k b hb hb'
    rcases hmem hb with ⟨rfl, rfl⟩ | hb
    . rcases hmem hb' with ⟨_, rfl⟩ | hb'
      . rfl
      . exact absurd hb' (hfree k)
    . rcases hmem hb' with ⟨rfl, _⟩ | hb'
      . exact absurd hb (hfree j)
      . exact h.unique hb hb'

theorem move (h : Exclusive holds live) (hij : i ≠ j) (hl : (holds i).Perm (a :: l))
    (hl' : l'.Perm (a :: holds j))
    : Exclusive (Function.update (Function.update holds i l) j l') live := by
  have ha : a ∈ holds i := hl.mem_iff.mpr List.mem_cons_self
  have hnodup : (a :: l).Nodup := hl.nodup_iff.mp (h.nodup i)
  have hnotin : a ∉ l := (List.nodup_cons.mp hnodup).1
  have hrest : Exclusive (Function.update holds i l) live :=
    h.shrink (fun b hb => hl.mem_iff.mpr (List.mem_cons_of_mem a hb)) (List.nodup_cons.mp hnodup).2
  apply hrest.gain (h.live_of_mem ha)
  . intro k hk
    rcases mem_update hk with ⟨rfl, hin⟩ | ⟨hki, hin⟩
    . exact hnotin hin
    . exact hki (h.unique hin ha)
  . rw [Function.update_of_ne hij.symm]
    exact hl'

theorem destroy (h : Exclusive holds live) (i : ι)
    : Exclusive (Function.update holds i []) (fun a => live a ∧ a ∉ holds i) := by
  apply (h.shrink (by simp) List.nodup_nil).mono
  intro j a hmem
  rcases mem_update hmem with ⟨_, hmem⟩ | ⟨hji, hmem⟩
  . simp at hmem
  . exact ⟨h.live_of_mem hmem, fun hi => hji (h.unique hmem hi)⟩

end Exclusive

/--
Every resource that is live is held, at one place of one owner.
-/
structure Partitioned {ι : Type u} {α : Type v} (holds : ι → List α) (live : α → Prop) : Prop
    extends Exclusive holds live where
  total : ∀ {a}, live a → ∃ i, a ∈ holds i

namespace Partitioned

variable {ι : Type u} {α : Type v} {holds : ι → List α} {live : α → Prop} {i j : ι} {a : α}
  {l l' : List α}

theorem existsUnique (h : Partitioned holds live) (ha : live a) : ∃! i, a ∈ holds i := by
  obtain ⟨i, hi⟩ := h.total ha
  exact ⟨i, hi, fun _ hj => h.unique hj hi⟩

theorem move [DecidableEq ι] (h : Partitioned holds live) (hij : i ≠ j) (hl : (holds i).Perm (a :: l))
    (hl' : l'.Perm (a :: holds j))
    : Partitioned (Function.update (Function.update holds i l) j l') live := by
  refine ⟨h.toExclusive.move hij hl hl', ?_⟩
  intro b hb
  obtain ⟨k, hk⟩ := h.total hb
  by_cases hba : b = a
  . refine ⟨j, ?_⟩
    rw [Function.update_self, hl'.mem_iff, hba]
    exact List.mem_cons_self
  . refine ⟨k, ?_⟩
    by_cases hkj : k = j
    . subst hkj
      rw [Function.update_self, hl'.mem_iff]
      exact List.mem_cons_of_mem a hk
    . rw [Function.update_of_ne hkj]
      by_cases hki : k = i
      . subst hki
        rw [Function.update_self]
        exact (List.mem_cons.mp (hl.mem_iff.mp hk)).resolve_left hba
      . rw [Function.update_of_ne hki]
        exact hk

end Partitioned
