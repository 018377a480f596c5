import Mathlib.Tactic
import Mathlib.Dynamics.PeriodicPts.Defs

/-!
This module contains the search for the next element with some property along the iterates of a
function, with a cursor that is left behind the element that was found. On a cycle a search of a whole
round is complete, and consecutive searches find all of the elements before they find one again.
-/

universe u

namespace CyclicSearch

variable {α : Type u}

def search (p : α → Bool) (next : α → α) (n : Nat) (x : α) : Option α × α :=
  match n with
  | 0 => (none, x)
  | n + 1 => if p x then (some x, next x) else search p next n (next x)

-- The cursor after `i` searches.
def cursor (p : α → Bool) (next : α → α) (n : Nat) (x : α) (i : Nat) : α :=
  (fun x => (search p next n x).2)^[i] x

def found (p : α → Bool) (next : α → α) (n : Nat) (x : α) (i : Nat) : Option α :=
  (search p next n (cursor p next n x i)).1

variable {p : α → Bool} {next : α → α} {n : Nat} {x : α}

theorem search_cases (p : α → Bool) (next : α → α) (n : Nat) (x : α)
    : (∃ k, k < n ∧ p (next^[k] x) = true ∧ (∀ j, j < k → p (next^[j] x) = false) ∧
        search p next n x = (some (next^[k] x), next (next^[k] x)))
      ∨ ((∀ k, k < n → p (next^[k] x) = false) ∧ search p next n x = (none, next^[n] x)) := by
  induction n generalizing x with
  | zero => exact Or.inr ⟨by simp, rfl⟩
  | succ n ih =>
    by_cases hx : p x = true
    . exact Or.inl ⟨0, by omega, hx, by simp, by simp [search, hx]⟩
    . have hfirst : p x = false := by simpa using hx
      have hsearch : search p next (n + 1) x = search p next n (next x) := by simp [search, hfirst]
      have hnot (m : Nat) (h : ∀ j, j < m → p (next^[j] (next x)) = false)
          : ∀ j, j < m + 1 → p (next^[j] x) = false := by
        intro j hj
        cases j with
        | zero => exact hfirst
        | succ j => exact h j (by omega)
      rw [hsearch]
      cases ih (next x) with
      | inl h =>
        obtain ⟨k, hk, hp, hbefore, heq⟩ := h
        exact Or.inl ⟨k + 1, by omega, hp, hnot k hbefore, heq⟩
      | inr h =>
        obtain ⟨hnone, heq⟩ := h
        exact Or.inr ⟨hnot n hnone, heq⟩

theorem search_eq_some {a c : α} (h : search p next n x = (some a, c))
    : ∃ k, k < n ∧ a = next^[k] x ∧ p a = true ∧ (∀ j, j < k → p (next^[j] x) = false) ∧
        c = next a := by
  cases search_cases p next n x with
  | inl hsome =>
    obtain ⟨k, hk, hp, hbefore, heq⟩ := hsome
    rw [heq, Prod.mk.injEq, Option.some.injEq] at h
    obtain ⟨rfl, rfl⟩ := h
    exact ⟨k, hk, rfl, hp, hbefore, rfl⟩
  | inr hnone => simp [hnone.2] at h

theorem search_eq_none {c : α} (h : search p next n x = (none, c))
    : (∀ k, k < n → p (next^[k] x) = false) ∧ c = next^[n] x := by
  cases search_cases p next n x with
  | inl hsome =>
    obtain ⟨k, -, -, -, heq⟩ := hsome
    simp [heq] at h
  | inr hnone =>
    rw [hnone.2, Prod.mk.injEq] at h
    exact ⟨hnone.1, h.2.symm⟩

theorem cursor_succ (i : Nat)
    : cursor p next n x (i + 1) = (search p next n (cursor p next n x i)).2 := by
  unfold cursor
  rw [Function.iterate_succ_apply']

theorem exists_cursor_eq (p : α → Bool) (next : α → α) (n : Nat) (x : α) (i : Nat)
    : ∃ e, cursor p next n x i = next^[e] x := by
  induction i with
  | zero => exact ⟨0, rfl⟩
  | succ i ih =>
    obtain ⟨e, he⟩ := ih
    rw [cursor_succ, he]
    cases search_cases p next n (next^[e] x) with
    | inl hsome =>
      obtain ⟨k, -, -, -, heq⟩ := hsome
      refine ⟨k + 1 + e, ?_⟩
      rw [heq, Function.iterate_add_apply, Function.iterate_succ_apply']
    | inr hnone =>
      refine ⟨n + e, ?_⟩
      rw [hnone.2, Function.iterate_add_apply]

theorem found_eq_some {b : α} {i : Nat} (h : found p next n x i = some b)
    : p b = true ∧ cursor p next n x (i + 1) = next b ∧ ∃ e, b = next^[e] x := by
  obtain ⟨e, he⟩ := exists_cursor_eq p next n x i
  unfold found at h
  obtain ⟨k, -, hb, hp, -, hcursor⟩ := search_eq_some (Prod.ext h rfl)
  rw [he, ← Function.iterate_add_apply] at hb
  exact ⟨hp, (cursor_succ i).trans hcursor, k + e, hb⟩

theorem exists_iterate_lt (hn : 0 < n) (hper : Function.minimalPeriod next x = n) (d e : Nat)
    : ∃ k, k < n ∧ next^[d] x = next^[k] (next^[e] x) := by
  have hround : next^[n] x = x := hper ▸ Function.iterate_minimalPeriod
  refine ⟨(d + (n - e % n)) % n, Nat.mod_lt _ hn, ?_⟩
  have hmod (m : Nat) : next^[m] x = next^[m % n] x := by
    rw [← hper, Function.iterate_mod_minimalPeriod_eq]
  have hle : e % n ≤ n := (Nat.mod_lt _ hn).le
  rw [← Function.iterate_add_apply, hmod d, hmod (_ + e)]
  congr 1
  conv => rhs; rw [Nat.add_mod, Nat.mod_mod, ← Nat.add_mod, Nat.add_assoc]
  have hsum : d + (n - e % n + e) = d + n * (1 + e / n) := by
    have hdiv : n * (e / n) + e % n = e := Nat.div_add_mod e n
    rw [Nat.mul_add, Nat.mul_one]
    omega
  rw [hsum, Nat.add_mul_mod_self_left]

section Cycle

variable (hn : 0 < n) (hper : Function.minimalPeriod next x = n)
include hn hper

theorem search_complete {d : Nat} (e : Nat) (hp : p (next^[d] x) = true)
    : ∃ a, search p next n (next^[e] x) = (some a, next a) := by
  obtain ⟨k, hk, heq⟩ := exists_iterate_lt hn hper d e
  cases search_cases p next n (next^[e] x) with
  | inl hsome =>
    obtain ⟨k, -, -, -, heq⟩ := hsome
    exact ⟨_, heq⟩
  | inr hnone =>
    have hfalse := hnone.1 k hk
    rw [← heq, hp] at hfalse
    simp at hfalse

theorem found_add {a : α} {i : Nat} (ha : found p next n x i = some a) (m : Nat)
    : ∃ d, m ≤ d ∧ found p next n x (i + m) = some (next^[d] a) ∧
        ∀ e, e < d → p (next^[e] a) = true →
          ∃ j, j < m ∧ found p next n x (i + j) = some (next^[e] a) := by
  induction m with
  | zero => exact ⟨0, Nat.le_refl _, ha, by simp⟩
  | succ m ih =>
    obtain ⟨d, hd, hfound, hpassed⟩ := ih
    obtain ⟨hp, hcursor, e, hb⟩ := found_eq_some hfound
    have hstart : cursor p next n x (i + (m + 1)) = next^[e + 1] x := by
      rw [← Nat.add_assoc, hcursor, hb, Function.iterate_succ_apply']
    obtain ⟨c, hsearch⟩ := search_complete hn hper (e + 1) (hb ▸ hp)
    obtain ⟨k, -, hc, -, hbefore, -⟩ := search_eq_some hsearch
    -- Past the element that was found last there are `k` that do not have the property.
    have hpast (j : Nat) : next^[j] (next^[e + 1] x) = next^[j + 1 + d] a := by
      rw [Function.iterate_succ_apply', ← hb, ← Function.iterate_succ_apply' next d,
        ← Function.iterate_add_apply, Nat.add_assoc, Nat.add_comm 1 d]
    refine ⟨k + 1 + d, by omega, ?_, ?_⟩
    . unfold found
      rw [hstart, hsearch, hc, hpast]
    . intro f hf hpf
      by_cases hlt : f < d
      . obtain ⟨j, hj, hjf⟩ := hpassed f hlt hpf
        exact ⟨j, by omega, hjf⟩
      . by_cases heq : f = d
        . exact ⟨m, by omega, heq ▸ hfound⟩
        . have hfalse := hbefore (f - d - 1) (by omega)
          rw [hpast, show f - d - 1 + 1 + d = f by omega, hpf] at hfalse
          simp at hfalse

theorem found_of_found_again {a b : α} {i j d : Nat} (hlt : i < j) (hi : found p next n x i = some a)
    (hj : found p next n x j = some a) (hd : b = next^[d] x) (hb : p b = true)
    : ∃ k, i ≤ k ∧ k < j ∧ found p next n x k = some b := by
  obtain ⟨-, -, e, ha⟩ := found_eq_some hi
  obtain ⟨f, hf, hfound, hpassed⟩ := found_add hn hper hi (j - i)
  rw [show i + (j - i) = j by omega, hj, Option.some.injEq] at hfound
  have hround : n ≤ f := by
    have hperiod : Function.minimalPeriod next a = n := by
      rw [ha, Function.minimalPeriod_apply_iterate, hper]
      exact Function.minimalPeriod_pos_iff_mem_periodicPts.mp (hper ▸ hn)
    rw [← hperiod]
    exact Function.IsPeriodicPt.minimalPeriod_le (by omega) hfound.symm
  obtain ⟨g, hg, heq⟩ := exists_iterate_lt hn hper d e
  rw [← hd, ← ha] at heq
  obtain ⟨k, hk, hfoundk⟩ := hpassed g (by omega) (heq ▸ hb)
  exact ⟨i + k, by omega, by omega, heq ▸ hfoundk⟩

end Cycle

end CyclicSearch
