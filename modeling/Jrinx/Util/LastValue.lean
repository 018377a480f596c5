import Mathlib.Tactic

/-!
This module contains what a register holds after a list of actions, some of which write to it: the value of
the last one that does.
-/

universe u v

/--
The value that the last action of the list gives to a register, if one does, and the initial value otherwise.
-/
def lastValue {α : Type u} {β : Type v} (value : α → Option β) (as : List α) (init : β) : β :=
  (as.filterMap value).getLast?.getD init

section

variable {α : Type u} {β : Type v} {value : α → Option β}

@[simp]
theorem lastValue_nil (init : β) : lastValue value [] init = init := rfl

theorem lastValue_cons (a : α) (as : List α) (init : β)
    : lastValue value (a :: as) init = lastValue value as ((value a).getD init) := by
  unfold lastValue
  cases ha : value a with
  | none => simp [ha]
  | some b =>
    rw [List.filterMap_cons_some ha, List.getLast?_cons]
    rfl

theorem lastValue_of_none {as : List α} (h : ∀ a ∈ as, value a = none) (init : β)
    : lastValue value as init = init := by
  rw [lastValue, List.filterMap_eq_nil_iff.mpr h]
  rfl

theorem lastValue_foldlM {ε : Type v} {σ : Type v} {step : σ → α → Except ε σ} {o : σ → β}
    {as : List α} {s s' : σ}
    (hstep : ∀ a ∈ as, ∀ s s', step s a = .ok s' → o s' = (value a).getD (o s))
    (h : as.foldlM step s = .ok s')
    : o s' = lastValue value as (o s) := by
  induction as generalizing s with
  | nil =>
    rw [List.foldlM_nil] at h
    cases h
    rfl
  | cons a as ih =>
    rw [List.foldlM_cons] at h
    cases hs : step s a with
    | error e =>
      rw [hs] at h
      cases h
    | ok t =>
      rw [hs] at h
      rw [lastValue_cons, ← hstep a List.mem_cons_self s t hs]
      exact ih (fun b hb => hstep b (List.mem_cons_of_mem a hb)) h

end
