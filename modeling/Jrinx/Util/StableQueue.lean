import Mathlib.Tactic

/-!
This module contains the reference priority queue: the items are kept in the order of their arrival
and `dequeue` takes, among the items of the highest priority, the one that arrived first.
-/

universe u v

namespace StableQueue

variable {α : Type u} {κ : Type v} [LinearOrder κ] (key : α → κ)

def enqueue (l : List α) (item : α) : List α := l ++ [item]

@[simp]
theorem enqueue_eq (l : List α) (item : α) : enqueue l item = l ++ [item] := rfl

def dequeue (l : List α) : Option (α × List α) :=
  match l with
  | [] => none
  | x :: xs =>
    match dequeue xs with
    | none => some (x, [])
    | some (y, ys) => if key x < key y then some (y, x :: ys) else some (x, xs)

structure IsNext (before : List α) (x : α) (after : List α) : Prop where
  lt_of_mem_before : ∀ y ∈ before, key y < key x
  le_of_mem_after : ∀ y ∈ after, key y ≤ key x

variable {key}

@[simp]
theorem dequeue_eq_none_iff {l : List α} : dequeue key l = none ↔ l = [] := by
  cases l with
  | nil => simp [dequeue]
  | cons x xs =>
    simp only [dequeue, reduceCtorEq, iff_false]
    split
    . simp
    . split <;> simp

theorem mem_of_dequeue_eq_some {l l' : List α} {x : α} (h : dequeue key l = some (x, l'))
    : x ∈ l := by
  induction l generalizing x l' with
  | nil => simp [dequeue] at h
  | cons z zs ih =>
    simp only [dequeue] at h
    split at h
    . simp_all
    . next y ys hy =>
      have := ih hy
      split at h <;> simp_all

theorem IsNext.dequeue_eq {before after : List α} {x : α} (h : IsNext key before x after)
    : dequeue key (before ++ x :: after) = some (x, before ++ after) := by
  induction before with
  | nil =>
    simp only [List.nil_append, dequeue]
    split
    . next hnone =>
      rw [dequeue_eq_none_iff.mp hnone]
    . next y ys hsome =>
      have hle := h.le_of_mem_after y (mem_of_dequeue_eq_some hsome)
      simp [not_lt.mpr hle]
  | cons z zs ih =>
    have hlt := h.lt_of_mem_before z (by simp)
    have hzs : IsNext key zs x after := by
      constructor
      . intro y hy
        exact h.lt_of_mem_before y (by simp [hy])
      . exact h.le_of_mem_after
    simp [dequeue, ih hzs, hlt]

theorem dequeue_eq_some_iff {l l' : List α} {x : α}
    : dequeue key l = some (x, l')
        ↔
      ∃ before after,
        l = before ++ x :: after ∧ l' = before ++ after ∧ IsNext key before x after := by
  constructor
  . intro h
    induction l generalizing x l' with
    | nil => simp [dequeue] at h
    | cons z zs ih =>
      simp only [dequeue] at h
      split at h
      . next hnone =>
        simp only [Option.some.injEq, Prod.mk.injEq] at h
        obtain ⟨rfl, rfl⟩ := h
        rw [dequeue_eq_none_iff.mp hnone]
        exact ⟨[], [], by simp, by simp, by simp, by simp⟩
      . next y ys hsome =>
        obtain ⟨before, after, hzs, hys, hnext⟩ := ih hsome
        split at h
        . next hlt =>
          simp only [Option.some.injEq, Prod.mk.injEq] at h
          obtain ⟨rfl, rfl⟩ := h
          refine ⟨z :: before, after, by simp [hzs], by simp [hys], ?_, hnext.le_of_mem_after⟩
          intro w hw
          rcases List.mem_cons.mp hw with rfl | hw
          . exact hlt
          . exact hnext.lt_of_mem_before w hw
        . next hlt =>
          simp only [Option.some.injEq, Prod.mk.injEq] at h
          obtain ⟨rfl, rfl⟩ := h
          have hle : key y ≤ key z := not_lt.mp hlt
          refine ⟨[], zs, by simp, by simp, by simp, ?_⟩
          intro w hw
          rw [hzs] at hw
          rcases List.mem_append.mp hw with hw | hw
          . exact le_of_lt (lt_of_lt_of_le (hnext.lt_of_mem_before w hw) hle)
          . rcases List.mem_cons.mp hw with rfl | hw
            . exact hle
            . exact le_trans (hnext.le_of_mem_after w hw) hle
  . rintro ⟨before, after, rfl, rfl, hnext⟩
    exact hnext.dequeue_eq

theorem mem_iff_of_dequeue_eq_some {l l' : List α} {x : α} (h : dequeue key l = some (x, l')) (y : α)
    : y ∈ l ↔ y = x ∨ y ∈ l' := by
  obtain ⟨before, after, rfl, rfl, _⟩ := dequeue_eq_some_iff.mp h
  simp only [List.mem_append, List.mem_cons]
  tauto

theorem perm_of_dequeue_eq_some {l l' : List α} {x : α} (h : dequeue key l = some (x, l'))
    : l.Perm (x :: l') := by
  obtain ⟨before, after, rfl, rfl, _⟩ := dequeue_eq_some_iff.mp h
  exact List.perm_middle

inductive Op (α : Type u) where
  | enqueue (item : α)
  | dequeue

def Op.item? (op : Op α) : Option α :=
  match op with
  | .enqueue item => some item
  | .dequeue => none

variable (key) in
def run (l : List α) (ops : List (Op α)) : List (Option α) × List α :=
  match ops with
  | [] => ([], l)
  | .enqueue item :: ops => run (enqueue l item) ops
  | .dequeue :: ops =>
    match dequeue key l with
    | none => (none :: (run l ops).1, (run l ops).2)
    | some (item, rest) => (some item :: (run rest ops).1, (run rest ops).2)

variable (key) in
theorem run_perm (l : List α) (ops : List (Op α))
    : (l ++ ops.filterMap Op.item?).Perm ((run key l ops).1.filterMap id ++ (run key l ops).2) := by
  induction ops generalizing l with
  | nil => simp [run]
  | cons op ops ih =>
    cases op with
    | enqueue item => simpa [run, Op.item?] using ih (l ++ [item])
    | dequeue =>
      simp only [run]
      split
      . simpa [List.filterMap_cons, Op.item?] using ih l
      . next item rest hdequeue =>
        have hperm := perm_of_dequeue_eq_some hdequeue
        simpa [List.filterMap_cons, Op.item?] using (hperm.append_right _).trans ((ih rest).cons item)

theorem perm_flatMap_filter {n : Nat} (key : α → Fin n) (l : List α)
    : l.Perm ((List.finRange n).flatMap (fun p => l.filter (key · = p))) := by
  classical
  rw [List.perm_iff_count]
  intro a
  have hcount : (List.count a ∘ fun p => l.filter (key · = p)) =
      fun p => if p = key a then l.count a else 0 := by
    funext p
    simp only [Function.comp]
    split
    . next h => rw [List.count_filter (by simp [h])]
    . next h =>
      apply List.count_eq_zero.mpr
      simp [Ne.symm h]
  rw [List.count_flatMap, hcount, List.sum_map_eq_nsmul_single (key a) _ (by simp +contextual)]
  simp [List.count_eq_one_of_mem (List.nodup_finRange n) (List.mem_finRange _)]

end StableQueue
