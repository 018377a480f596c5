import Mathlib.Tactic

/-!
This module contains the identifiers that are handed out by `#[derive(SerialId)]`: every kind of
identifier has a generator of its own, which counts upwards.
-/

namespace Jrinx

inductive SerialIdKind where
  | task
  | executor
  | inspector
  | timedEvent
  deriving DecidableEq, Repr

structure SerialId (kind : SerialIdKind) where
  val : Nat
  deriving DecidableEq, Repr

namespace SerialId

variable {kind : SerialIdKind}

instance : Ord (SerialId kind) where
  compare a b := compare a.val b.val

instance : Inhabited (SerialId kind) := ⟨⟨0⟩⟩

theorem eq_of_val {a b : SerialId kind} (h : a.val = b.val) : a = b := by
  cases a
  cases b
  simpa using h

theorem compare_def (a b : SerialId kind) : compare a b = compare a.val b.val := rfl

instance : Std.TransOrd (SerialId kind) where
  eq_swap {a b} := by
    simp only [compare_def]
    exact Std.OrientedCmp.eq_swap
  isLE_trans {a b c} := by
    simp only [compare_def]
    exact Std.TransCmp.isLE_trans

instance : Std.LawfulEqOrd (SerialId kind) where
  eq_of_compare {a b} h := by
    simp only [compare_def] at h
    cases a
    cases b
    simpa using h

theorem mem_iff_exists {β : Type} {m : Std.ExtTreeMap (SerialId kind) β} {id : SerialId kind}
    : id ∈ m ↔ ∃ value, m[id]? = some value := by
  rw [← Std.ExtTreeMap.isSome_getElem?_iff_mem, Option.isSome_iff_exists]

end SerialId

abbrev TaskId := SerialId .task
abbrev ExecutorId := SerialId .executor
abbrev InspectorId := SerialId .inspector
abbrev TimedEventId := SerialId .timedEvent

end Jrinx
