import Mathlib.Tactic

/-!
This module contains the notion of a step function whose steps may fail: a step is taken, it is not
possible in the current state, or it runs into a panic. On top of it there are the runs of such a
step function and the induction principle for invariants of these runs.
-/

universe u v w

inductive Outcome (σ : Type u) where
  -- The step is taken.
  | next (s : σ)
  -- The step is taken and panics.
  | panic
  -- The step is not possible in this state.
  | disabled
  deriving DecidableEq, Repr

namespace Outcome

variable {σ : Type u} {τ : Type v}

def map (f : σ → τ) : Outcome σ → Outcome τ
  | .next s => .next (f s)
  | .panic => .panic
  | .disabled => .disabled

def holds (p : σ → Bool) : Outcome σ → Bool
  | .next s => p s
  | .panic => false
  | .disabled => false

def unwrap {ε : Type v} {α : Type u} (r : Except ε α) (k : α → Outcome σ) : Outcome σ :=
  match r with
  | .ok a => k a
  | .error _ => .panic

def and (first second : Outcome Bool) : Outcome Bool :=
  match first with
  | .next true => second
  | _ => first

def all {α : Type v} (check : α → Outcome Bool) (l : List α) : Outcome Bool :=
  match l with
  | [] => .next true
  | a :: l => (check a).and (all check l)

@[simp]
theorem map_next (f : σ → τ) (s : σ) : (Outcome.next s).map f = .next (f s) := rfl

@[simp]
theorem map_panic (f : σ → τ) : (Outcome.panic : Outcome σ).map f = .panic := rfl

@[simp]
theorem map_disabled (f : σ → τ) : (Outcome.disabled : Outcome σ).map f = .disabled := rfl

theorem map_eq_next {f : σ → τ} {o : Outcome σ} {t : τ} (h : o.map f = .next t)
    : ∃ s, o = .next s ∧ f s = t := by
  cases o with
  | next s => exact ⟨s, rfl, by simpa using h⟩
  | panic => simp at h
  | disabled => simp at h

theorem map_eq_disabled_iff {f : σ → τ} {o : Outcome σ} : o.map f = .disabled ↔ o = .disabled := by
  cases o <;> simp

theorem and_eq_true_iff {first second : Outcome Bool}
    : first.and second = .next true ↔ first = .next true ∧ second = .next true := by
  match first with
  | .next true => simp [Outcome.and]
  | .next false => simp [Outcome.and]
  | .panic => simp [Outcome.and]
  | .disabled => simp [Outcome.and]

theorem all_eq_true_iff {α : Type v} {check : α → Outcome Bool} {l : List α}
    : all check l = .next true ↔ ∀ a ∈ l, check a = .next true := by
  induction l with
  | nil => simp [Outcome.all]
  | cons a l ih => simp [Outcome.all, and_eq_true_iff, ih]

theorem holds_iff {p : σ → Bool} {o : Outcome σ}
    : o.holds p = true ↔ ∃ s, o = .next s ∧ p s = true := by
  cases o <;> simp [holds]

@[simp]
theorem unwrap_ok {ε : Type v} {α : Type u} (a : α) (k : α → Outcome σ)
    : unwrap (.ok a : Except ε α) k = k a := rfl

@[simp]
theorem unwrap_error {ε : Type v} {α : Type u} (e : ε) (k : α → Outcome σ)
    : unwrap (.error e : Except ε α) k = .panic := rfl

theorem unwrap_eq_next {ε : Type v} {α : Type u} {r : Except ε α} {k : α → Outcome σ} {s : σ}
    (h : unwrap r k = .next s)
    : ∃ a, r = .ok a ∧ k a = .next s := by
  cases r with
  | ok a => exact ⟨a, rfl, h⟩
  | error e => simp at h

end Outcome

variable {σ : Type u} {α : Type v}

def exec (step : σ → α → Outcome σ) (s : σ) (as : List α) : Outcome σ :=
  match as with
  | [] => .next s
  | a :: as =>
    match step s a with
    | .next s' => exec step s' as
    | .panic => .panic
    | .disabled => .disabled

def observe {β : Type w} (step : σ → α → Outcome σ) (obs : σ → α → List β) (s : σ) (as : List α)
    : List β :=
  match as with
  | [] => []
  | a :: as =>
    match step s a with
    | .next s' => obs s a ++ observe step obs s' as
    | .panic => []
    | .disabled => []

/--
`Run step allowed s as s'` holds if the actions `as` lead from `s` to `s'` and every action is
`allowed` in the state it is taken in.
-/
inductive Run (step : σ → α → Outcome σ) (allowed : σ → α → Prop) : σ → List α → σ → Prop where
  | nil (s : σ) : Run step allowed s [] s
  | cons {s s' s'' : σ} {a : α} {as : List α} (hallowed : allowed s a) (hstep : step s a = .next s')
      (hrun : Run step allowed s' as s'') : Run step allowed s (a :: as) s''

namespace Run

variable {step : σ → α → Outcome σ} {allowed : σ → α → Prop}

theorem invariant {s s' : σ} {as : List α} (hrun : Run step allowed s as s') (inv : σ → Prop)
    (hinit : inv s)
    (hkeep : ∀ (s s' : σ) (a : α), inv s → allowed s a → step s a = .next s' → inv s')
    : inv s' := by
  induction hrun with
  | nil => assumption
  | cons hallowed hstep _ ih => exact ih (hkeep _ _ _ hinit hallowed hstep)

theorem mono {allowed' : σ → α → Prop} (himp : ∀ s a, allowed s a → allowed' s a) {s s' : σ}
    {as : List α} (h : Run step allowed s as s')
    : Run step allowed' s as s' := by
  induction h with
  | nil => exact .nil _
  | cons hallowed hstep _ ih => exact .cons (himp _ _ hallowed) hstep ih

theorem append {s s' s'' : σ} {as bs : List α} (h : Run step allowed s as s')
    (h' : Run step allowed s' bs s'')
    : Run step allowed s (as ++ bs) s'' := by
  induction h with
  | nil => exact h'
  | cons hallowed hstep _ ih => exact .cons hallowed hstep (ih h')

theorem restrict {allowed' : σ → α → Prop} {s s' : σ} {as : List α} (h : Run step allowed s as s')
    (hmem : ∀ a ∈ as, ∀ s, allowed' s a)
    : Run step allowed' s as s' := by
  induction h with
  | nil => exact .nil _
  | cons _ hstep _ ih =>
    exact .cons (hmem _ (by simp) _) hstep (ih fun a ha => hmem a (by simp [ha]))

theorem of_exec {s s' : σ} {as : List α} (h : exec step s as = .next s')
    : Run step (fun _ _ => True) s as s' := by
  induction as generalizing s with
  | nil =>
    simp only [exec, Outcome.next.injEq] at h
    subst h
    exact .nil _
  | cons a as ih =>
    simp only [exec] at h
    cases hstep : step s a with
    | next t =>
      rw [hstep] at h
      exact .cons trivial hstep (ih h)
    | panic => simp [hstep] at h
    | disabled => simp [hstep] at h

theorem observe_cons {β : Type w} {obs : σ → α → List β} {s s' : σ} {a : α} {as : List α}
    (hstep : step s a = .next s')
    : observe step obs s (a :: as) = obs s a ++ observe step obs s' as := by
  simp only [observe, hstep]

theorem observe_invariant {β : Type w} {obs : σ → α → List β} {s s' : σ} {as : List α} {l : List β}
    (hrun : Run step allowed s as s') (inv : σ → List β → Prop) (hinit : inv s l)
    (hkeep : ∀ (s s' : σ) (a : α) (l : List β), inv s l → allowed s a → step s a = .next s' →
      inv s' (l ++ obs s a))
    : inv s' (l ++ observe step obs s as) := by
  induction hrun generalizing l with
  | nil => simpa [observe] using hinit
  | cons hallowed hstep _ ih =>
    rw [observe_cons hstep, ← List.append_assoc]
    exact ih (hkeep _ _ _ _ hinit hallowed hstep)

end Run

theorem exists_run_of_exec (step : σ → α → Outcome σ) (s : σ) (as : List α) (p : σ → Bool)
    (h : (exec step s as).holds p = true)
    : ∃ s', Run step (fun _ _ => True) s as s' ∧ p s' = true := by
  obtain ⟨s', hs', hp⟩ := Outcome.holds_iff.mp h
  exact ⟨s', Run.of_exec hs', hp⟩

section Exec

variable {step : σ → α → Outcome σ} {s s'' : σ}

theorem exec_cons_iff {a : α} {as : List α}
    : exec step s (a :: as) = .next s'' ↔ ∃ s', step s a = .next s' ∧ exec step s' as = .next s'' := by
  rw [exec]
  cases step s a <;> simp

theorem exec_append (as bs : List α)
    : exec step s (as ++ bs) =
        match exec step s as with
        | .next s' => exec step s' bs
        | .panic => .panic
        | .disabled => .disabled := by
  induction as generalizing s with
  | nil => rfl
  | cons a as ih =>
    rw [List.cons_append, exec, exec]
    cases step s a with
    | next s' => exact ih
    | panic => rfl
    | disabled => rfl

theorem exec_append_iff {as bs : List α}
    : exec step s (as ++ bs) = .next s'' ↔ ∃ s', exec step s as = .next s' ∧ exec step s' bs = .next s'' := by
  rw [exec_append]
  cases exec step s as <;> simp

theorem exec_ne_disabled (h : ∀ s a, step s a ≠ .disabled) (as : List α) : exec step s as ≠ .disabled := by
  induction as generalizing s with
  | nil => simp [exec]
  | cons a as ih =>
    rw [exec]
    cases hstep : step s a with
    | next s' => exact ih
    | panic => simp
    | disabled => exact absurd hstep (h s a)

theorem exec_flatMap {β : Type w} {step : σ → β × α → Outcome σ} (f : β → List α) (bs : List β) (s : σ)
    : exec (fun s b => exec (fun s a => step s (b, a)) s (f b)) s bs =
        exec step s (bs.flatMap fun b => (f b).map (b, ·)) := by
  have hinner (b : β) (as : List α) (s : σ)
      : exec (fun s a => step s (b, a)) s as = exec step s (as.map (b, ·)) := by
    induction as generalizing s with
    | nil => rfl
    | cons a as ih =>
      rw [List.map_cons, exec, exec]
      cases step s (b, a) with
      | next s' => exact ih s'
      | panic => rfl
      | disabled => rfl
  induction bs generalizing s with
  | nil => rfl
  | cons b bs ih =>
    rw [List.flatMap_cons, exec_append, exec, hinner]
    cases exec step s ((f b).map (b, ·)) with
    | next s' => exact ih s'
    | panic => rfl
    | disabled => rfl

end Exec

def checked (step : σ → α → Outcome σ) (allowed : σ → α → Prop) [∀ s a, Decidable (allowed s a)]
    (s : σ) (a : α) : Outcome σ :=
  if allowed s a then step s a else .disabled

theorem Run.of_checked {step : σ → α → Outcome σ} {allowed : σ → α → Prop}
    [∀ s a, Decidable (allowed s a)] {s s' : σ} {as : List α}
    (h : Run (checked step allowed) (fun _ _ => True) s as s')
    : Run step allowed s as s' := by
  induction h with
  | nil => exact .nil _
  | cons _ hstep _ ih =>
    unfold checked at hstep
    split at hstep
    . next hallowed => exact .cons hallowed hstep ih
    . simp at hstep
