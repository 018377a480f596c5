import Jrinx.Util.Outcome

/-!
This module contains infinite schedules of actors that share a state, and the rule for what happens in
every fair one of them: a rank never grows, and as long as the goal has not been reached there is an
actor that lowers the rank on its next turn, whatever the others do until then.
-/

universe u v

variable {σ : Type u} {α : Type v} {step : σ → α → Outcome σ} {init : σ}

/--
The actor whose turn it is takes its step, and nothing happens if its step is not possible.
-/
structure Schedule (step : σ → α → Outcome σ) (init : σ) where
  turn : Nat → α
  state : Nat → σ
  state_zero : state 0 = init
  taken : ∀ n, step (state n) (turn n) = .next (state (n + 1)) ∨
    step (state n) (turn n) = .disabled ∧ state (n + 1) = state n

namespace Schedule

variable (t : Schedule step init)

def Fair (actors : α → Prop) : Prop := ∀ a, actors a → ∀ n, ∃ k, t.turn (n + k) = a

theorem exists_run (n : Nat) : ∃ as, Run step (fun _ _ => True) init as (t.state n) := by
  induction n with
  | zero =>
    rw [t.state_zero]
    exact ⟨[], .nil _⟩
  | succ n ih =>
    obtain ⟨as, hrun⟩ := ih
    rcases t.taken n with hstep | ⟨_, hsame⟩
    . exact ⟨as ++ [t.turn n], hrun.append (.cons trivial hstep (.nil _))⟩
    . rw [hsame]
      exact ⟨as, hrun⟩

/--
What an actor does that brings all of them closer to the goal.
-/
structure Helpful (step : σ → α → Outcome σ) (inv : σ → Prop) (rank : σ → Nat) (helps : σ → α → Prop)
    : Prop where
  le : ∀ {s s' : σ} {a : α}, inv s → step s a = .next s' → rank s' ≤ rank s
  lower : ∀ {s : σ} {a : α}, inv s → helps s a → ∃ s', step s a = .next s' ∧ rank s' < rank s
  stay : ∀ {s s' : σ} {a b : α}, inv s → helps s a → b ≠ a → step s b = .next s' → helps s' a

variable {t} {inv : σ → Prop} {rank : σ → Nat} {helps : σ → α → Prop}

theorem Helpful.lower_of_turn (hhelpful : Helpful step inv rank helps) {n : Nat} (hinv : inv (t.state n))
    (hhelps : helps (t.state n) (t.turn n))
    : rank (t.state (n + 1)) < rank (t.state n) := by
  obtain ⟨s', hstep, hlt⟩ := hhelpful.lower hinv hhelps
  rcases t.taken n with htaken | ⟨hdisabled, _⟩
  . rw [hstep] at htaken
    cases htaken
    exact hlt
  . rw [hstep] at hdisabled
    cases hdisabled

theorem exists_lower (hhelpful : Helpful step inv rank helps) (hinv : ∀ n, inv (t.state n)) {a : α} {k : Nat}
    : ∀ {n : Nat}, helps (t.state n) a → t.turn (n + k) = a →
        ∃ j, rank (t.state j) < rank (t.state n) := by
  induction k with
  | zero =>
    rintro n hhelps rfl
    exact ⟨n + 1, hhelpful.lower_of_turn (hinv n) hhelps⟩
  | succ k ih =>
    intro n hhelps hturn
    by_cases ha : t.turn n = a
    . subst ha
      exact ⟨n + 1, hhelpful.lower_of_turn (hinv n) hhelps⟩
    . have hturn' : t.turn (n + 1 + k) = a := by
        rw [Nat.add_right_comm, Nat.add_assoc]
        exact hturn
      rcases t.taken n with htaken | ⟨_, hsame⟩
      . obtain ⟨j, hj⟩ := ih (hhelpful.stay (hinv n) hhelps ha htaken) hturn'
        exact ⟨j, Nat.lt_of_lt_of_le hj (hhelpful.le (hinv n) htaken)⟩
      . obtain ⟨j, hj⟩ := ih (hsame.symm ▸ hhelps) hturn'
        exact ⟨j, hsame ▸ hj⟩

theorem Fair.eventually {actors : α → Prop} {goal : σ → Prop} (hfair : t.Fair actors)
    (hhelpful : Helpful step inv rank helps) (hinv : ∀ n, inv (t.state n))
    (hexists : ∀ s, inv s → ¬ goal s → ∃ a, actors a ∧ helps s a)
    : ∃ n, goal (t.state n) := by
  by_contra hnever
  push Not at hnever
  have hdescend (r : Nat) : ∀ n, rank (t.state n) ≠ r := by
    induction r using Nat.strongRecOn with
    | ind r ih =>
      intro n hn
      obtain ⟨a, ha, hhelps⟩ := hexists _ (hinv n) (hnever n)
      obtain ⟨k, hk⟩ := hfair a ha n
      obtain ⟨j, hj⟩ := exists_lower hhelpful hinv hhelps hk
      exact ih _ (hn ▸ hj) j rfl
  exact hdescend _ 0 rfl

end Schedule

section

variable {step : σ → Nat → Outcome σ} {init : σ}

def roundStates (step : σ → Nat → Outcome σ) (init : σ) (n : Nat) : σ :=
  match n with
  | 0 => init
  | n + 1 =>
    let s := roundStates step init n
    match step s n.unpair.1 with
    | .next s' => s'
    | _ => s

theorem roundStates_taken
    (hsafe : ∀ as s, Run step (fun _ _ => True) init as s → ∀ a, step s a ≠ .panic) (n : Nat)
    : (∃ as, Run step (fun _ _ => True) init as (roundStates step init n)) ∧
        (step (roundStates step init n) n.unpair.1 = .next (roundStates step init (n + 1)) ∨
          step (roundStates step init n) n.unpair.1 = .disabled ∧
            roundStates step init (n + 1) = roundStates step init n) := by
  have htaken {n : Nat} (hrun : ∃ as, Run step (fun _ _ => True) init as (roundStates step init n))
      : step (roundStates step init n) n.unpair.1 = .next (roundStates step init (n + 1)) ∨
          step (roundStates step init n) n.unpair.1 = .disabled ∧
            roundStates step init (n + 1) = roundStates step init n := by
    obtain ⟨as, hrun⟩ := hrun
    simp only [roundStates]
    cases hstep : step (roundStates step init n) n.unpair.1 with
    | next s' => exact .inl rfl
    | panic => exact absurd hstep (hsafe as _ hrun _)
    | disabled => exact .inr ⟨rfl, rfl⟩
  induction n with
  | zero => exact ⟨⟨[], .nil _⟩, htaken ⟨[], .nil _⟩⟩
  | succ n ih =>
    obtain ⟨⟨as, hrun⟩, hstep⟩ := ih
    have hrun' : ∃ as, Run step (fun _ _ => True) init as (roundStates step init (n + 1)) := by
      rcases hstep with hstep | ⟨_, hsame⟩
      . exact ⟨as ++ [n.unpair.1], hrun.append (.cons trivial hstep (.nil _))⟩
      . exact ⟨as, hsame ▸ hrun⟩
    exact ⟨hrun', htaken hrun'⟩

theorem exists_fair_schedule
    (hsafe : ∀ as s, Run step (fun _ _ => True) init as s → ∀ a, step s a ≠ .panic)
    : ∃ t : Schedule step init, t.Fair fun _ => True := by
  refine ⟨⟨fun n => n.unpair.1, roundStates step init, rfl, fun n => (roundStates_taken hsafe n).2⟩, ?_⟩
  intro a _ n
  have hle : n ≤ Nat.pair a n := Nat.right_le_pair a n
  refine ⟨Nat.pair a n - n, ?_⟩
  rw [Nat.add_sub_cancel' hle]
  exact congrArg Prod.fst (Nat.unpair_pair a n)

end
