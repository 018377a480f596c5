import Mathlib.Tactic

/-!
This module contains patches: pieces of contents that are written over each other one after the other.
-/

universe u

structure Patch (α : Type u) where
  start : Nat
  contents : List α
  deriving DecidableEq, Repr

namespace Patch

variable {α : Type u} {base : Nat → α} {p : Patch α} {ps : List (Patch α)} {a : Nat} {x : α}

def Covers (p : Patch α) (a : Nat) : Prop := p.start ≤ a ∧ a < p.start + p.contents.length

instance (p : Patch α) (a : Nat) : Decidable (p.Covers a) := inferInstanceAs (Decidable (_ ∧ _))

def write (base : Nat → α) (p : Patch α) : Nat → α := fun a =>
  if p.start ≤ a then p.contents[a - p.start]?.getD (base a) else base a

def overlay (base : Nat → α) (ps : List (Patch α)) : Nat → α := ps.foldl write base

theorem write_of_covers (h : p.Covers a) (hx : p.contents[a - p.start]? = some x)
    : write base p a = x := by
  rw [write, if_pos h.1, hx, Option.getD_some]

theorem write_of_not_covers (h : ¬ p.Covers a) : write base p a = base a := by
  unfold write
  split
  . next hle =>
    have hlen : p.contents.length ≤ a - p.start := by
      unfold Covers at h
      omega
    rw [List.getElem?_eq_none hlen, Option.getD_none]
  . rfl

theorem overlay_cons : overlay base (p :: ps) = overlay (write base p) ps := rfl

theorem overlay_append (qs : List (Patch α))
    : overlay base (ps ++ qs) = overlay (overlay base ps) qs :=
  List.foldl_append

theorem overlay_of_not_covers (h : ∀ p ∈ ps, ¬ p.Covers a) : overlay base ps a = base a := by
  induction ps generalizing base with
  | nil => rfl
  | cons p ps ih =>
    rw [overlay_cons, ih fun q hq => h q (List.mem_cons_of_mem p hq)]
    exact write_of_not_covers (h p List.mem_cons_self)

theorem overlay_of_agree (hagree : ∀ p ∈ ps, p.Covers a → p.contents[a - p.start]? = some x)
    (hcovers : ∃ p ∈ ps, p.Covers a)
    : overlay base ps a = x := by
  induction ps generalizing base with
  | nil => simp at hcovers
  | cons p ps ih =>
    have hagree' : ∀ q ∈ ps, q.Covers a → q.contents[a - q.start]? = some x :=
      fun q hq => hagree q (List.mem_cons_of_mem p hq)
    rw [overlay_cons]
    by_cases hlater : ∃ q ∈ ps, q.Covers a
    . exact ih hagree' hlater
    . have hnone : ∀ q ∈ ps, ¬ q.Covers a := fun q hq hc => hlater ⟨q, hq, hc⟩
      obtain ⟨q, hq, hc⟩ := hcovers
      obtain rfl : q = p := (List.mem_cons.mp hq).resolve_right fun hq => hnone q hq hc
      rw [overlay_of_not_covers hnone]
      exact write_of_covers hc (hagree q List.mem_cons_self hc)

end Patch
