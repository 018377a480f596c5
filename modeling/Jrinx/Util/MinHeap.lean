import Mathlib.Tactic

/-!
This module contains the reference min heap: a list of items, `peek` looks for an item with the smallest
key.
-/

universe u v

namespace MinHeap

variable {α : Type u} {κ : Type v} [LinearOrder κ] {key : α → κ}

def peek (key : α → κ) (l : List α) : Option α :=
  match l with
  | [] => none
  | x :: xs =>
    match peek key xs with
    | none => some x
    | some y => if key x ≤ key y then some x else some y

@[simp]
theorem peek_eq_none_iff {l : List α} : peek key l = none ↔ l = [] := by
  cases l with
  | nil => simp [peek]
  | cons x xs =>
    simp only [peek, reduceCtorEq, iff_false]
    split
    . simp
    . split <;> simp

theorem peek_eq_some {l : List α} {x : α} (h : peek key l = some x)
    : x ∈ l ∧ ∀ y ∈ l, key x ≤ key y := by
  induction l generalizing x with
  | nil => simp [peek] at h
  | cons z zs ih =>
    simp only [peek] at h
    split at h
    . next hnone =>
      rw [peek_eq_none_iff] at hnone
      simp_all
    . next y hsome =>
      obtain ⟨hmem, hle⟩ := ih hsome
      split at h
      . next hzy =>
        simp only [Option.some.injEq] at h
        subst h
        refine ⟨by simp, ?_⟩
        intro w hw
        rcases List.mem_cons.mp hw with rfl | hw
        . exact le_refl _
        . exact le_trans hzy (hle w hw)
      . next hzy =>
        simp only [Option.some.injEq] at h
        subst h
        refine ⟨by simp [hmem], ?_⟩
        intro w hw
        rcases List.mem_cons.mp hw with rfl | hw
        . exact le_of_lt (not_le.mp hzy)
        . exact hle w hw

end MinHeap
