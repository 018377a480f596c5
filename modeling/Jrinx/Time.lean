import Mathlib.Tactic

/-!
This module contains `core::time::Duration` with a resolution of nanoseconds.
-/

namespace Jrinx

structure Duration where
  nanos : Nat
  isLt : nanos < 2 ^ 64 * 10 ^ 9
  deriving DecidableEq, Repr

namespace Duration

def zero : Duration := ⟨0, by decide⟩

def max : Duration := ⟨2 ^ 64 * 10 ^ 9 - 1, by decide⟩

def fromNanos (nanos : Nat) : Duration :=
  ⟨nanos % 2 ^ 64, Nat.lt_of_lt_of_le (Nat.mod_lt _ (by decide)) (by decide)⟩

instance : LE Duration where
  le a b := a.nanos ≤ b.nanos

instance : LT Duration where
  lt a b := a.nanos < b.nanos

instance (a b : Duration) : Decidable (a ≤ b) := inferInstanceAs (Decidable (a.nanos ≤ b.nanos))

instance (a b : Duration) : Decidable (a < b) := inferInstanceAs (Decidable (a.nanos < b.nanos))

def add (a b : Duration) : Option Duration :=
  if h : a.nanos + b.nanos < 2 ^ 64 * 10 ^ 9 then
    some ⟨a.nanos + b.nanos, h⟩
  else
    none

def sub (a b : Duration) : Option Duration :=
  if b.nanos ≤ a.nanos then
    some ⟨a.nanos - b.nanos, Nat.lt_of_le_of_lt (Nat.sub_le _ _) a.isLt⟩
  else
    none

theorem le_def {a b : Duration} : a ≤ b ↔ a.nanos ≤ b.nanos := Iff.rfl

theorem eq_of_nanos {a b : Duration} (h : a.nanos = b.nanos) : a = b := by
  cases a
  cases b
  simpa using h

theorem le_max (a : Duration) : a.nanos ≤ max.nanos := Nat.le_pred_of_lt a.isLt

theorem lt_def {a b : Duration} : a < b ↔ a.nanos < b.nanos := Iff.rfl

theorem add_eq_some {a b c : Duration} : a.add b = some c ↔ c.nanos = a.nanos + b.nanos := by
  unfold add
  constructor
  . intro h
    split at h
    . simp only [Option.some.injEq] at h
      rw [← h]
    . simp at h
  . intro h
    have hlt : a.nanos + b.nanos < 2 ^ 64 * 10 ^ 9 := by
      rw [← h]
      exact c.isLt
    rw [dif_pos hlt, Option.some.injEq]
    exact eq_of_nanos h.symm

theorem add_eq_none {a b : Duration} : a.add b = none ↔ max.nanos < a.nanos + b.nanos := by
  unfold add
  constructor
  . intro h
    split at h
    . simp at h
    . simp only [max]
      omega
  . intro h
    simp only [max] at h
    rw [dif_neg (by omega)]

theorem sub_eq_some {a b c : Duration} : a.sub b = some c ↔ a.nanos = b.nanos + c.nanos := by
  unfold sub
  constructor
  . intro h
    split at h
    . simp only [Option.some.injEq] at h
      rw [← h]
      simp only
      omega
    . simp at h
  . intro h
    rw [if_pos (by omega), Option.some.injEq]
    exact eq_of_nanos (by simp only; omega)

end Duration

end Jrinx
