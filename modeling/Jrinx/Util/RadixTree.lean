import Mathlib.Tactic

/-!
This module contains radix trees whose nodes are pages of a memory: an entry of a page either leads to
the page of a child or to nothing. On top of it there is the notion of a tree without shared nodes, in
which storing an entry or growing a node changes what is reached by one path only.
-/

universe u v

namespace RadixTree

variable {β : Type u} {ω : Type v}

def walk (next : ω → Option β) (mem : β → Nat → ω) (b : β) (path : List Nat) : Option β :=
  match path with
  | [] => some b
  | i :: path =>
    match next (mem b i) with
    | some b' => walk next mem b' path
    | none => none

variable {next : ω → Option β} {mem mem' : β → Nat → ω} {root : β}

@[simp]
theorem walk_nil : walk next mem root [] = some root := rfl

theorem walk_append (p q : List Nat)
    : walk next mem root (p ++ q) = (walk next mem root p).bind (walk next mem · q) := by
  induction p generalizing root with
  | nil => simp
  | cons i p ih =>
    simp only [List.cons_append, walk]
    split
    . next b _ => exact ih
    . simp

theorem walk_concat (p : List Nat) (i : Nat)
    : walk next mem root (p ++ [i]) = (walk next mem root p).bind (fun b => next (mem b i)) := by
  rw [walk_append]
  congr 1
  funext b
  simp only [walk]
  split <;> simp_all

theorem walk_singleton (i : Nat) : walk next mem root [i] = next (mem root i) := by
  rw [← List.nil_append [i], walk_concat, walk_nil, Option.bind_some]

def Closed (own : List Nat → Prop) : Prop := ∀ (p : List Nat) (i : Nat), own (p ++ [i]) → own p

def Unshared (next : ω → Option β) (own : List Nat → Prop) (mem : β → Nat → ω) (root : β) : Prop :=
  ∀ (p q : List Nat) (b : β), own p → own q → walk next mem root p = some b →
    walk next mem root q = some b → p = q

variable {own : List Nat → Prop}

theorem walk_congr (hclosed : Closed own)
    (hmem : ∀ (q : List Nat) (i : Nat) (b : β), own (q ++ [i]) → walk next mem root q = some b →
      mem' b i = mem b i)
    {q : List Nat} (hown : own q)
    : walk next mem' root q = walk next mem root q := by
  induction q using List.reverseRecOn with
  | nil => simp
  | append_singleton q i ih =>
    rw [walk_concat, walk_concat, ih (hclosed q i hown)]
    cases hwalk : walk next mem root q with
    | none => simp
    | some b => simp [hmem q i b hown hwalk]

variable [DecidableEq β]

def store (mem : β → Nat → ω) (b : β) (i : Nat) (w : ω) : β → Nat → ω :=
  fun b' i' => if b' = b ∧ i' = i then w else mem b' i'

def fill (mem : β → Nat → ω) (b : β) (w : ω) : β → Nat → ω :=
  fun b' i' => if b' = b then w else mem b' i'

@[simp]
theorem store_self (b : β) (i : Nat) (w : ω) : store mem b i w b i = w := by
  simp [store]

theorem store_of_ne {b b' : β} {i i' : Nat} {w : ω} (hne : ¬ (b' = b ∧ i' = i))
    : store mem b i w b' i' = mem b' i' := by
  simp only [store, if_neg hne]

theorem fill_of_ne {b b' : β} {i : Nat} {w : ω} (hne : b' ≠ b) : fill mem b w b' i = mem b' i := by
  simp only [fill, if_neg hne]

@[simp]
theorem fill_self (b : β) (i : Nat) (w : ω) : fill mem b w b i = w := by
  simp [fill]

theorem foldl_store {f : Nat → Nat} {g : Nat → ω} {n j : Nat} {b : β} (hj : j < n)
    (hinj : ∀ i < n, f j = f i → i = j)
    : (List.range n).foldl (fun mem i => store mem b (f i) (g i)) mem b (f j) = g j := by
  induction n with
  | zero => exact absurd hj (Nat.not_lt_zero j)
  | succ n ih =>
    rw [List.range_succ, List.foldl_append, List.foldl_cons, List.foldl_nil]
    by_cases heq : n = j
    . rw [heq, store_self]
    . rw [store_of_ne fun h => heq (hinj n (Nat.lt_succ_self n) h.2)]
      exact ih (by omega) fun i hi => hinj i (Nat.lt_succ_of_lt hi)

theorem walk_store_bottom (hclosed : Closed own) (hun : Unshared next own mem root) {p : List Nat}
    {b : β} (hp : own p) (hwalk : walk next mem root p = some b) (hbottom : ∀ i, ¬ own (p ++ [i]))
    {j : Nat} {w : ω} {q : List Nat} (hq : own q)
    : walk next (store mem b j w) root q = walk next mem root q := by
  apply walk_congr hclosed ?_ hq
  intro q' i b' hown hwalk'
  apply store_of_ne
  rintro ⟨rfl, _⟩
  have heq := hun q' p b' (hclosed q' i hown) hp hwalk' hwalk
  subst heq
  exact hbottom i hown

theorem walk_store_outside (hclosed : Closed own) {b : β}
    (houtside : ∀ q, own q → walk next mem root q ≠ some b) {j : Nat} {w : ω} {q : List Nat} (hq : own q)
    : walk next (store mem b j w) root q = walk next mem root q := by
  apply walk_congr hclosed ?_ hq
  intro q' i b' hown hwalk'
  apply store_of_ne
  rintro ⟨rfl, _⟩
  exact houtside q' (hclosed q' i hown) hwalk'

theorem walk_grow (hclosed : Closed own) (hun : Unshared next own mem root) {p : List Nat} {b n : β}
    {i : Nat} {w zero : ω} (hp : own p) (hwalk : walk next mem root p = some b)
    (hnone : next (mem b i) = none) (hfresh : ∀ q, own q → walk next mem root q ≠ some n)
    (hzero : next zero = none) (hnext : next w = some n) {q : List Nat} (hq : own q)
    : walk next (store (fill mem n zero) b i w) root q =
        if q = p ++ [i] then some n else walk next mem root q := by
  have hbn : n ≠ b := by
    rintro rfl
    exact hfresh p hp hwalk
  induction q using List.reverseRecOn with
  | nil => simp
  | append_singleton q k ih =>
    have hown := hclosed q k hq
    rw [walk_concat, ih hown]
    by_cases hqp : q = p ++ [i]
    . -- below the new page
      subst hqp
      have hne : ¬ (p ++ [i] ++ [k] = p ++ [i]) := by simp
      have hnew : store (fill mem n zero) b i w n k = zero := by
        rw [store_of_ne (fun h => hbn h.1), fill_self]
      rw [if_pos rfl, if_neg hne, walk_concat, walk_concat, hwalk, Option.bind_some, Option.bind_some,
        hnone, Option.bind_none, hnew, hzero]
    . rw [if_neg hqp, walk_concat]
      cases hwalk' : walk next mem root q with
      | none =>
        have hne : ¬ (q ++ [k] = p ++ [i]) := by
          intro heq
          obtain ⟨rfl, _⟩ := List.append_inj' heq rfl
          simp [hwalk] at hwalk'
        rw [if_neg hne, Option.bind_none, Option.bind_none]
      | some b' =>
        have hb' : b' ≠ n := by
          rintro rfl
          exact hfresh q hown hwalk'
        by_cases heq : q ++ [k] = p ++ [i]
        . obtain ⟨rfl, hk⟩ := List.append_inj' heq rfl
          simp only [List.cons.injEq, and_true] at hk
          subst hk
          rw [hwalk, Option.some.injEq] at hwalk'
          subst hwalk'
          simp [hnext]
        . have hne : ¬ (b' = b ∧ k = i) := by
            rintro ⟨rfl, rfl⟩
            exact heq (by rw [hun q p b' hown hp hwalk' hwalk])
          rw [if_neg heq, Option.bind_some, Option.bind_some, store_of_ne hne, fill_of_ne hb']

theorem Unshared.grow (hclosed : Closed own) (hun : Unshared next own mem root) {p : List Nat} {b n : β}
    {i : Nat} {w zero : ω} (hp : own p) (hwalk : walk next mem root p = some b)
    (hnone : next (mem b i) = none) (hfresh : ∀ q, own q → walk next mem root q ≠ some n)
    (hzero : next zero = none) (hnext : next w = some n)
    : Unshared next own (store (fill mem n zero) b i w) root := by
  intro q q' b' hq hq' hwq hwq'
  rw [walk_grow hclosed hun hp hwalk hnone hfresh hzero hnext hq] at hwq
  rw [walk_grow hclosed hun hp hwalk hnone hfresh hzero hnext hq'] at hwq'
  split at hwq
  . next heq =>
    simp only [Option.some.injEq] at hwq
    subst hwq
    split at hwq'
    . next heq' => rw [heq, heq']
    . exact absurd hwq' (hfresh q' hq')
  . split at hwq'
    . simp only [Option.some.injEq] at hwq'
      subst hwq'
      exact absurd hwq (hfresh q hq)
    . exact hun q q' b' hq hq' hwq hwq'

end RadixTree
