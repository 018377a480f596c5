import Mathlib.Data.Set.Basic
import Jrinx.Util.Outcome

/-!
This module contains actions that need something and add something: a list of them can be taken one after the
other if each finds what it needs, from the beginning or added by those before it.
-/

universe u v w

-- The steps that have all been taken, one after the other: what holds of the rest is carried over to its beginning.
@[elab_as_elim]
theorem exec_induction {σ : Type u} {α : Type v} {step : σ → α → Outcome σ} {s' : σ}
    {motive : (s : σ) → (as : List α) → exec step s as = .next s' → Prop}
    {s : σ} {as : List α} (hexec : exec step s as = .next s') (nil : motive s' [] rfl)
    (cons : ∀ {s s₁ a as} (hstep : step s a = .next s₁) (hrest : exec step s₁ as = .next s'),
      motive s₁ as hrest → motive s (a :: as) (exec_cons_iff.mpr ⟨s₁, hstep, hrest⟩))
    : motive s as hexec := by
  induction as generalizing s with
  | nil =>
    obtain rfl := Outcome.next.inj hexec
    exact nil
  | cons a as ih =>
    obtain ⟨s₁, hstep, hrest⟩ := exec_cons_iff.mp hexec
    exact cons hstep hrest (ih hrest)

structure Stages (α : Type u) (β : Type v) where
  Needs : Set β → α → Prop
  adds : α → Set β

namespace Stages

variable {α : Type u} {β : Type v} (stages : Stages α β)

def added (as : List α) : Set β := {x | ∃ a ∈ as, x ∈ stages.adds a}

def Ready (found : Set β) (as : List α) : Prop :=
  match as with
  | [] => True
  | a :: as => stages.Needs found a ∧ Ready (found ∪ stages.adds a) as

variable {stages} {found : Set β} {as bs : List α}

theorem added_cons (a : α) (as : List α) : stages.added (a :: as) = stages.adds a ∪ stages.added as := by
  ext x
  simp [added]

theorem added_append (as bs : List α) : stages.added (as ++ bs) = stages.added as ∪ stages.added bs := by
  ext x
  simp [added, or_and_right, exists_or]

theorem added_of_adds (h : ∀ a ∈ as, stages.adds a = ∅) : stages.added as = ∅ := by
  rw [Set.eq_empty_iff_forall_notMem]
  rintro x ⟨a, ha, hx⟩
  rw [h a ha] at hx
  exact hx

theorem ready_append
    : stages.Ready found (as ++ bs) ↔ stages.Ready found as ∧ stages.Ready (found ∪ stages.added as) bs := by
  induction as generalizing found with
  | nil => simp [Ready, added]
  | cons a as ih => rw [List.cons_append, Ready, Ready, ih, added_cons, Set.union_assoc, and_assoc]

theorem ready_iff_forall {final : Set β}
    (hsame : ∀ a ∈ as, ∀ now, found ⊆ now → now ⊆ found ∪ stages.added as →
      (stages.Needs now a ↔ stages.Needs final a))
    : stages.Ready found as ↔ ∀ a ∈ as, stages.Needs final a := by
  induction as generalizing found with
  | nil => simp [Ready]
  | cons a as ih =>
    have hhead := hsame a List.mem_cons_self found subset_rfl Set.subset_union_left
    have htail : stages.Ready (found ∪ stages.adds a) as ↔ ∀ b ∈ as, stages.Needs final b := by
      apply ih
      intro b hb now hle hge
      apply hsame b (List.mem_cons_of_mem a hb) now (Set.subset_union_left.trans hle)
      rwa [added_cons, ← Set.union_assoc]
    rw [Ready, hhead, htail, List.forall_mem_cons]

/--
Those that add come first and need nothing that is added. Then only what there is in the end matters, and neither
does the order of those that add nor that of the others.
-/
theorem ready_stages {first rest : List α}
    (hfirst : ∀ a ∈ first, ∀ now now', stages.Needs now a → stages.Needs now' a)
    (hrest : ∀ a ∈ rest, stages.adds a = ∅)
    : stages.Ready found (first ++ rest) ↔
        ∀ a ∈ first ++ rest, stages.Needs (found ∪ stages.added (first ++ rest)) a := by
  have hadded : stages.added (first ++ rest) = stages.added first := by
    rw [added_append, added_of_adds hrest, Set.union_empty]
  have hready : stages.Ready found first ↔ ∀ a ∈ first, stages.Needs (found ∪ stages.added first) a := by
    apply ready_iff_forall
    intro a ha now _ _
    exact ⟨hfirst a ha _ _, hfirst a ha _ _⟩
  have hready' : stages.Ready (found ∪ stages.added first) rest ↔
      ∀ a ∈ rest, stages.Needs (found ∪ stages.added first) a := by
    apply ready_iff_forall
    intro a ha now hle hge
    rw [added_of_adds hrest, Set.union_empty] at hge
    rw [hge.antisymm hle]
  rw [hadded, ready_append, hready, hready', List.forall_mem_append]

theorem exec_found {σ : Type w} {step : σ → α → Outcome σ} {found : σ → Set β} {s s' : σ}
    (h : ∀ {s s' a}, step s a = .next s' → found s' = found s ∪ stages.adds a) (hexec : exec step s as = .next s')
    : found s' = found s ∪ stages.added as := by
  induction hexec using exec_induction with
  | nil => rw [added_of_adds (by simp), Set.union_empty]
  | cons hstep _ ih => rw [ih, h hstep, added_cons, Set.union_assoc]

/--
The steps find room for what they do, and each of them is possible as soon as there is what it needs.
-/
structure Drives {σ : Type w} (stages : Stages α β) (step : σ → α → Outcome σ) (found : σ → Set β)
    (room : σ → List α → Prop) : Prop where
  iff : ∀ {s a as}, room s (a :: as) → ((∃ s', step s a = .next s') ↔ stages.Needs (found s) a)
  room : ∀ {s s' a as}, room s (a :: as) → step s a = .next s' → room s' as
  found : ∀ {s s' a}, step s a = .next s' → found s' = found s ∪ stages.adds a

namespace Drives

variable {σ : Type w} {step : σ → α → Outcome σ} {found : σ → Set β} {room : σ → List α → Prop} {s s' : σ}

theorem exec_iff (h : stages.Drives step found room) (hroom : room s as)
    : (∃ s', exec step s as = .next s') ↔ stages.Ready (found s) as := by
  induction as generalizing s with
  | nil => simp [exec, Ready]
  | cons a as ih =>
    rw [Ready, ← h.iff hroom]
    constructor
    . rintro ⟨s'', hexec⟩
      obtain ⟨s', hstep, hrest⟩ := exec_cons_iff.mp hexec
      refine ⟨⟨s', hstep⟩, ?_⟩
      rw [← h.found hstep]
      exact (ih (h.room hroom hstep)).mp ⟨s'', hrest⟩
    . rintro ⟨⟨s', hstep⟩, hready⟩
      rw [← h.found hstep] at hready
      obtain ⟨s'', hrest⟩ := (ih (h.room hroom hstep)).mpr hready
      exact ⟨s'', exec_cons_iff.mpr ⟨s', hstep, hrest⟩⟩

end Drives

end Stages
