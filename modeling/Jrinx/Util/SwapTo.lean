import Jrinx.Util.Outcome

/-!
This module contains a list that is put into order by swaps: the first element with a property changes places
with the one at a given position. Once for each of some positions, counted from the front, this brings elements
there that stay.
-/

namespace Jrinx

universe u

variable {α : Type u}

-- The indexes have to be in the list.
def swap (l : List α) (i j : Nat) : Outcome (List α) :=
  match l[i]?, l[j]? with
  | some a, some b => .next ((l.set i b).set j a)
  | _, _ => .panic

def swapTo (p : α → Bool) (k : Nat) (l : List α) : Outcome (List α) :=
  match l.findIdx? p with
  -- the `unwrap` of the search
  | none => .panic
  | some i => swap l i k

section

variable {l l' : List α} {p : α → Bool} {i j k : Nat}

theorem swap_eq (hi : i < l.length) (hj : j < l.length)
    : swap l i j = .next ((l.set i l[j]).set j l[i]) := by
  rw [swap, List.getElem?_eq_getElem hi, List.getElem?_eq_getElem hj]

structure SwappedTo (p : α → Bool) (k : Nat) (l l' : List α) : Prop where
  perm : l'.Perm l
  front : ∀ i < k, l'[i]? = l[i]?
  found : ∃ a, l'[k]? = some a ∧ p a = true

theorem swapTo_next (hfront : ∀ i < k, ∀ a ∈ l[i]?, p a = false) (hmem : ∃ a ∈ l, p a = true)
    : ∃ l', swapTo p k l = .next l' ∧ SwappedTo p k l l' := by
  have hsome : (l.findIdx? p).isSome = true := by
    rw [List.findIdx?_isSome, List.any_eq_true]
    exact hmem
  obtain ⟨i, hfind⟩ := Option.isSome_iff_exists.mp hsome
  obtain ⟨hi, hp, _⟩ := List.findIdx?_eq_some_iff_getElem.mp hfind
  have hle : k ≤ i := by
    by_contra hlt
    have hfalse := hfront i (by omega) l[i] (by rw [List.getElem?_eq_getElem hi]; rfl)
    rw [hp] at hfalse
    exact absurd hfalse (by decide)
  have hk : k < l.length := by omega
  refine ⟨_, by rw [swapTo, hfind]; exact swap_eq hi hk, ?_⟩
  constructor
  case perm => exact List.set_set_perm hi hk
  case front =>
    intro m hm
    rw [List.getElem?_set_ne (by omega), List.getElem?_set_ne (by omega)]
  case found =>
    refine ⟨l[i], ?_, hp⟩
    rw [List.getElem?_set_self (by rwa [List.length_set])]

theorem swapTo_panic (h : ∀ a ∈ l, p a = false) : swapTo p k l = .panic := by
  have hnone : l.findIdx? p = none := List.findIdx?_eq_none_iff.mpr h
  rw [swapTo, hnone]

end

end Jrinx
