import Mathlib.Tactic
import Mathlib.Data.BitVec
import Jrinx.Util.Outcome
import Jrinx.Util.Sweep

/-!
This module contains the exclusive intervals. Every bound puts a weight on its start and takes it back
at its end, the iterator adds the weights up and hands out the stretches on which their sum is
positive. Addresses are natural numbers below `2 ^ w`, the weights are machine integers of width `w`
whose sums wrap around.
-/

namespace Jrinx

structure Bound where
  start : Nat
  len : Nat
  deriving DecidableEq, Repr

namespace Bound

def Contains (b : Bound) (x : Nat) : Prop := b.start ≤ x ∧ x < b.start + b.len

instance (b : Bound) (x : Nat) : Decidable (b.Contains x) :=
  inferInstanceAs (Decidable (b.start ≤ x ∧ x < b.start + b.len))

def fits (w : Nat) (b : Bound) : Prop := b.start + b.len < 2 ^ w

instance (w : Nat) (b : Bound) : Decidable (b.fits w) :=
  inferInstanceAs (Decidable (b.start + b.len < 2 ^ w))

end Bound

structure ExclusiveIntervals (w : Nat) where
  inner : List (Nat × BitVec w)
  deriving DecidableEq, Repr

structure ExclusiveIntervalsIter (w : Nat) where
  sum : BitVec w
  intoIter : List (Nat × BitVec w)
  deriving DecidableEq, Repr

namespace ExclusiveIntervals

variable {w : Nat}

def infinity (w : Nat) : BitVec w := BitVec.ofInt w 32767

def new (w : Nat) (iter : List Bound) : ExclusiveIntervals w :=
  ⟨iter.flatMap (fun b => [(b.start, 1), ((b.start + b.len) % 2 ^ w, -1)])⟩

def subAssign (s : ExclusiveIntervals w) (rhs : Bound) : ExclusiveIntervals w :=
  ⟨s.inner ++ [(rhs.start, -infinity w), ((rhs.start + rhs.len) % 2 ^ w, infinity w)]⟩

-- The order of the tuples, the deltas are signed.
def byPosAndDelta (p : Nat × BitVec w) : Nat ×ₗ Int := toLex (p.1, p.2.toInt)

def intoIter (sort : SortUnstable (@byPosAndDelta w)) (s : ExclusiveIntervals w)
    : ExclusiveIntervalsIter w :=
  ⟨0, (SortedGroups.groups Prod.fst (sort.sort s.inner)).map
    (fun g => ((g.map (·.1)).headD 0, (g.map (·.2)).sum))⟩

end ExclusiveIntervals

namespace ExclusiveIntervalsIter

variable {w : Nat}

-- The positions are sorted, so `pos - start` does not go below zero.
def next.go (sum : BitVec w) (left : Option Nat) (l : List (Nat × BitVec w))
    : Outcome (Option Bound × ExclusiveIntervalsIter w) :=
  match l with
  | [] => .next (none, ⟨sum, []⟩)
  | (pos, delta) :: l =>
    let old := sum
    let sum := sum + delta
    if old.sle 0 && (0 : BitVec w).slt sum then
      go sum (some pos) l
    else if (0 : BitVec w).slt old && sum.sle 0 then
      match left with
      | none => .panic
      | some start => .next (some ⟨start, pos - start⟩, ⟨sum, l⟩)
    else
      go sum left l

def next (it : ExclusiveIntervalsIter w) : Outcome (Option Bound × ExclusiveIntervalsIter w) :=
  next.go it.sum none it.intoIter

theorem next.go_length {sum : BitVec w} {left : Option Nat} {l : List (Nat × BitVec w)} {b : Bound}
    {it : ExclusiveIntervalsIter w} (h : next.go sum left l = .next (some b, it))
    : it.intoIter.length < l.length := by
  fun_induction next.go sum left l with
  | case1 => simp at h
  | case2 _ _ _ _ _ _ _ _ ih => exact (ih h).trans (by simp)
  | case3 => simp at h
  | case4 =>
    simp only [Outcome.next.injEq, Prod.mk.injEq] at h
    simp [← h.2]
  | case5 _ _ _ _ _ _ _ _ _ ih => exact (ih h).trans (by simp)

-- Calls `next` until it returns `None`.
def collect (it : ExclusiveIntervalsIter w) : Outcome (List Bound) :=
  match h : it.next with
  | .next (some b, it') =>
    have : it'.intoIter.length < it.intoIter.length := next.go_length h
    (collect it').map (b :: ·)
  | .next (none, _) => .next []
  | .panic => .panic
  | .disabled => .disabled
termination_by it.intoIter.length

theorem collect_of_next_none {it it' : ExclusiveIntervalsIter w} (h : it.next = .next (none, it'))
    : it.collect = .next [] := by
  rw [collect]
  split <;> simp_all

theorem collect_of_next_some {it it' : ExclusiveIntervalsIter w} {b : Bound}
    (h : it.next = .next (some b, it'))
    : it.collect = it'.collect.map (b :: ·) := by
  rw [collect]
  split <;> simp_all

def hot (sum : BitVec w) : Bool := (0 : BitVec w).slt sum

def ofStretch (i : Nat × Nat) : Bound := ⟨i.1, i.2 - i.1⟩

-- `next` is the sweep up to the end of the first stretch.
theorem next.go_eq_sweep (sum : BitVec w) (left : Option Nat) (l : List (Nat × BitVec w))
    : (∃ i it, next.go sum left l = .next (some (ofStretch i), it) ∧
        Sweep.sweep hot sum left l = (Sweep.sweep hot it.sum none it.intoIter).map (i :: ·)) ∨
      (∃ it, next.go sum left l = .next (none, it) ∧ Sweep.sweep hot sum left l = some []) ∨
      (next.go sum left l = .panic ∧ Sweep.sweep hot sum left l = none) := by
  fun_induction next.go sum left l with
  | case1 sum => exact .inr (.inl ⟨⟨sum, []⟩, rfl, rfl⟩)
  | case2 old left pos delta l _ sum hrise ih =>
    rw [BitVec.sle_eq_not_slt] at hrise
    have hsweep : Sweep.sweep hot old left ((pos, delta) :: l) = Sweep.sweep hot sum (some pos) l :=
      if_pos hrise
    rw [hsweep]
    exact ih
  | case3 old pos delta l _ sum hrise hfall =>
    rw [BitVec.sle_eq_not_slt] at hrise hfall
    have hsweep : Sweep.sweep hot old none ((pos, delta) :: l) = none :=
      (if_neg hrise).trans (if_pos hfall)
    exact .inr (.inr ⟨rfl, hsweep⟩)
  | case4 old pos delta l _ sum hrise hfall start =>
    rw [BitVec.sle_eq_not_slt] at hrise hfall
    have hsweep : Sweep.sweep hot old (some start) ((pos, delta) :: l)
        =
      (Sweep.sweep hot sum none l).map ((start, pos) :: ·) :=
      (if_neg hrise).trans (if_pos hfall)
    exact .inl ⟨(start, pos), ⟨sum, l⟩, rfl, hsweep⟩
  | case5 old left pos delta l _ sum hrise hfall ih =>
    rw [BitVec.sle_eq_not_slt] at hrise hfall
    have hsweep : Sweep.sweep hot old left ((pos, delta) :: l) = Sweep.sweep hot sum left l :=
      (if_neg hrise).trans (if_neg hfall)
    rw [hsweep]
    exact ih

theorem collect_of_sweep {it : ExclusiveIntervalsIter w} {out : List (Nat × Nat)}
    (h : Sweep.sweep hot it.sum none it.intoIter = some out)
    : it.collect = .next (out.map ofStretch) := by
  induction out generalizing it with
  | nil =>
    obtain ⟨i, it', _, hsweep⟩ | ⟨it', hnext, _⟩ | ⟨_, hsweep⟩ :=
      next.go_eq_sweep it.sum none it.intoIter
    . rw [hsweep] at h
      simp at h
    . exact collect_of_next_none hnext
    . simp [hsweep] at h
  | cons i out ih =>
    obtain ⟨i', it', hnext, hsweep⟩ | ⟨it', _, hsweep⟩ | ⟨_, hsweep⟩ :=
      next.go_eq_sweep it.sum none it.intoIter
    . rw [hsweep] at h
      obtain ⟨out', hout, heq⟩ := Option.map_eq_some_iff.mp h
      obtain ⟨rfl, rfl⟩ : i' = i ∧ out' = out := by simpa using heq
      rw [collect_of_next_some hnext, ih hout]
      rfl
    . simp [hsweep] at h
    . simp [hsweep] at h

end ExclusiveIntervalsIter

namespace ExclusiveIntervals

variable {w : Nat}

def iterate (sort : SortUnstable (@byPosAndDelta w)) (adds subs : List Bound)
    : Outcome (List Bound) :=
  ((subs.foldl subAssign (new w adds)).intoIter sort).collect

section Weights

variable {δ : BitVec w} {x : Nat}

def weights (δ : BitVec w) (b : Bound) : List (Nat × BitVec w) :=
  [(b.start, δ), (b.start + b.len, -δ)]

theorem flatMap_weights {bs : List Bound} (h : ∀ b ∈ bs, b.fits w)
    : bs.flatMap (fun b => [(b.start, δ), ((b.start + b.len) % 2 ^ w, -δ)])
        =
      bs.flatMap (weights δ) := by
  apply List.flatMap_congr
  intro b hb
  have hend : (b.start + b.len) % 2 ^ w = b.start + b.len := Nat.mod_eq_of_lt (h b hb)
  rw [hend]
  rfl

theorem inner_foldl_subAssign (s : ExclusiveIntervals w) (subs : List Bound)
    : (subs.foldl subAssign s).inner
        =
      s.inner ++ subs.flatMap
        (fun b => [(b.start, -infinity w), ((b.start + b.len) % 2 ^ w, - -infinity w)]) := by
  induction subs generalizing s with
  | nil => simp
  | cons b subs ih => simp [ih, subAssign]

theorem sum_weights (bs : List Bound)
    : ((bs.flatMap (weights δ)).map (·.2)).sum = 0 := by
  induction bs with
  | nil => rfl
  | cons b bs ih =>
    rw [List.flatMap_cons, List.map_append, List.sum_append, ih]
    simp [weights]

theorem level_append {l l' : List (Nat × BitVec w)}
    : Sweep.level 0 (l ++ l') x = Sweep.level 0 l x + Sweep.level 0 l' x := by
  simp [Sweep.level]

theorem level_weights (bs : List Bound)
    : Sweep.level 0 (bs.flatMap (weights δ)) x = bs.countP (·.Contains x) • δ := by
  induction bs with
  | nil => simp [Sweep.level]
  | cons b bs ih =>
    have hone : Sweep.level 0 (weights δ b) x = if b.Contains x then δ else 0 := by
      by_cases hstart : b.start ≤ x <;> by_cases hend : b.start + b.len ≤ x
      . simp [Sweep.level, weights, Bound.Contains, hstart, hend]
      . simp [Sweep.level, weights, Bound.Contains, hstart, hend, Nat.lt_of_not_le hend]
      . omega
      . simp [Sweep.level, weights, Bound.Contains, hstart, hend]
    rw [List.flatMap_cons, level_append, ih, hone, List.countP_cons]
    split
    next h => simp only [h, decide_true, if_true, succ_nsmul']
    next h => simp only [h, decide_false, Bool.false_eq_true, if_false, zero_add, add_zero]

end Weights

section Exact

variable {sort : SortUnstable (@byPosAndDelta w)} {adds subs : List Bound} {x : Nat}

def covering (bs : List Bound) (x : Nat) : Nat := bs.countP (·.Contains x)

theorem covering_eq_zero_iff {bs : List Bound} : covering bs x = 0 ↔ ¬ ∃ b ∈ bs, b.Contains x := by
  simp [covering]

theorem covering_pos_iff {bs : List Bound} : 0 < covering bs x ↔ ∃ b ∈ bs, b.Contains x := by
  simp [covering]

theorem covering_replicate {b : Bound} (n : Nat) (h : b.Contains x)
    : covering (List.replicate n b) x = n := by
  simp [covering, List.countP_replicate, h]

theorem inner_eq (hadds : ∀ b ∈ adds, b.fits w) (hsubs : ∀ b ∈ subs, b.fits w)
    : (subs.foldl subAssign (new w adds)).inner
        =
      adds.flatMap (weights 1) ++ subs.flatMap (weights (-infinity w)) := by
  rw [inner_foldl_subAssign, flatMap_weights hsubs, ← flatMap_weights hadds]
  rfl

theorem level_inner (hadds : ∀ b ∈ adds, b.fits w) (hsubs : ∀ b ∈ subs, b.fits w)
    : Sweep.level 0 (subs.foldl subAssign (new w adds)).inner x
        =
      BitVec.ofInt w (covering adds x - 32767 * covering subs x) := by
  rw [inner_eq hadds hsubs, level_append, level_weights, level_weights, nsmul_eq_mul, nsmul_eq_mul,
    ← covering, ← covering, Int.sub_eq_add_neg, BitVec.ofInt_add, BitVec.ofInt_neg, BitVec.ofInt_mul,
    BitVec.ofInt_natCast, BitVec.ofInt_natCast, ← infinity]
  simp only [BitVec.natCast_eq_ofNat]
  ring

theorem byPosAndDelta_injective : Function.Injective (@byPosAndDelta w) := by
  intro p q h
  have hpair : (p.1, p.2.toInt) = (q.1, q.2.toInt) := toLex.injective h
  simp only [Prod.mk.injEq] at hpair
  exact Prod.ext hpair.1 (BitVec.eq_of_toInt_eq hpair.2)

theorem sort_eq_of_perm {l l' : List (Nat × BitVec w)} (h : l.Perm l')
    : sort.sort l = sort.sort l' := by
  have hperm : (sort.sort l).Perm (sort.sort l') :=
    (sort.perm l).trans (h.trans (sort.perm l').symm)
  apply hperm.eq_of_pairwise _ (sort.sorted l) (sort.sorted l')
  intro p q _ _ hpq hqp
  exact byPosAndDelta_injective (le_antisymm hpq hqp)

theorem sorted_pos (sort : SortUnstable (@byPosAndDelta w)) (l : List (Nat × BitVec w)) : (sort.sort l).Pairwise (fun p q => p.1 ≤ q.1) := by
  apply (sort.sorted l).imp
  intro p q h
  rcases Prod.Lex.le_iff.mp h with hlt | heq
  . exact Nat.le_of_lt hlt
  . exact Nat.le_of_eq heq.1

theorem iterate_perm {adds' subs' : List Bound} (hadds : adds'.Perm adds) (hsubs : subs'.Perm subs)
    : iterate sort adds' subs' = iterate sort adds subs := by
  have hnew : (new w adds').inner.Perm (new w adds).inner := hadds.flatMap_right _
  have hinner : (subs'.foldl subAssign (new w adds')).inner.Perm
      (subs.foldl subAssign (new w adds)).inner := by
    rw [inner_foldl_subAssign, inner_foldl_subAssign]
    exact hnew.append (hsubs.flatMap_right _)
  rw [iterate, iterate, intoIter, intoIter, sort_eq_of_perm hinner]

theorem iterate_spec (sort : SortUnstable (@byPosAndDelta w)) (hadds : ∀ b ∈ adds, b.fits w) (hsubs : ∀ b ∈ subs, b.fits w)
    : ∃ out, iterate sort adds subs = .next out ∧ (∀ b ∈ out, 0 < b.len) ∧
        out.Pairwise (fun b b' => b.start + b.len < b'.start) ∧
          ∀ x, (∃ b ∈ out, b.Contains x) ↔ ExclusiveIntervalsIter.hot
            (BitVec.ofInt w (covering adds x - 32767 * covering subs x)) = true := by
  have hperm := sort.perm (subs.foldl subAssign (new w adds)).inner
  have hsum : ((sort.sort (subs.foldl subAssign (new w adds)).inner).map (·.2)).sum = 0 := by
    rw [(hperm.map _).sum_eq, inner_eq hadds hsubs, List.map_append, List.sum_append, sum_weights,
      sum_weights, add_zero]
  have hzero : ExclusiveIntervalsIter.hot (0 : BitVec w) = false := by
    simp [ExclusiveIntervalsIter.hot, BitVec.slt_eq_decide]
  obtain ⟨out, hout, hlt, hseparated, hcovered⟩ :=
    Sweep.sweep_collapse (sorted_pos sort _) hzero (by rw [hsum, hzero])
  refine ⟨out.map ExclusiveIntervalsIter.ofStretch, ExclusiveIntervalsIter.collect_of_sweep hout, ?_,
    ?_, ?_⟩
  . intro b hb
    obtain ⟨i, hi, rfl⟩ := List.mem_map.mp hb
    exact Nat.sub_pos_of_lt (hlt i hi)
  . rw [List.pairwise_map]
    apply hseparated.imp_of_mem
    intro i j hi _ hij
    have := hlt i hi
    simp only [ExclusiveIntervalsIter.ofStretch]
    omega
  . intro x
    rw [← level_inner hadds hsubs, ← Sweep.level_perm hperm, ← hcovered]
    constructor
    . rintro ⟨b, hb, hx⟩
      obtain ⟨i, hi, rfl⟩ := List.mem_map.mp hb
      have := hlt i hi
      simp only [ExclusiveIntervalsIter.ofStretch, Bound.Contains] at hx
      exact ⟨i, hi, by omega, by omega⟩
    . rintro ⟨i, hi, hstart, hend⟩
      refine ⟨_, List.mem_map_of_mem hi, ?_⟩
      simp only [ExclusiveIntervalsIter.ofStretch, Bound.Contains]
      omega

/--
The iteration does not panic. It hands out bounds of positive length in increasing order with a gap
between any two of them, they hold the addresses in some added and in no subtracted bound and they do
not depend on the order of the additions and of the subtractions.
-/
def Exact (sort : SortUnstable (@byPosAndDelta w)) (adds subs : List Bound) : Prop :=
  ∃ out, iterate sort adds subs = .next out ∧ (∀ b ∈ out, 0 < b.len) ∧
    out.Pairwise (fun b b' => b.start + b.len < b'.start) ∧
      (∀ x, (∃ b ∈ out, b.Contains x) ↔
        (∃ b ∈ adds, b.Contains x) ∧ ¬ ∃ b ∈ subs, b.Contains x) ∧
          ∀ adds' subs', adds'.Perm adds → subs'.Perm subs → iterate sort adds' subs' = .next out

/--
No address lies in so many subtracted bounds that the sum there wraps around to a positive value.
-/
def WithinRange (w : Nat) (adds subs : List Bound) : Prop :=
  ∀ x, 0 < covering subs x → (32767 * covering subs x - covering adds x) % 2 ^ w ≤ 2 ^ (w - 1)

theorem exact_iff_forall_hot (hadds : ∀ b ∈ adds, b.fits w) (hsubs : ∀ b ∈ subs, b.fits w)
    : Exact sort adds subs ↔
        ∀ x, ExclusiveIntervalsIter.hot
            (BitVec.ofInt w (covering adds x - 32767 * covering subs x)) = true ↔
          0 < covering adds x ∧ covering subs x = 0 := by
  obtain ⟨out, hout, hpos, hseparated, hcovered⟩ := iterate_spec sort hadds hsubs
  simp only [covering_pos_iff, covering_eq_zero_iff, ← hcovered]
  constructor
  . rintro ⟨out', hout', _, _, hexact, _⟩
    obtain rfl : out = out' := by simpa [hout] using hout'
    exact hexact
  . intro hexact
    refine ⟨out, hout, hpos, hseparated, hexact, ?_⟩
    intro adds' subs' hadds' hsubs'
    rw [iterate_perm hadds' hsubs', hout]

theorem hot_ofInt_iff {z : Int}
    : ExclusiveIntervalsIter.hot (BitVec.ofInt w z) = true ↔ 0 < z.bmod (2 ^ w) := by
  simp [ExclusiveIntervalsIter.hot, BitVec.slt_eq_decide]

theorem bmod_neg_pos_iff {n m : Nat} (hn : 0 < n)
    : 0 < Int.bmod (-m) (2 * n) ↔ ¬ m % (2 * n) ≤ n := by
  have hlt : m % (2 * n) < 2 * n := Nat.mod_lt _ (by omega)
  have hmod : (-(m : Int)) % (2 * n : Nat) = (-(m % (2 * n) : Nat) : Int) % (2 * n : Nat) := by
    have hdiv : (m : Int) = (m % (2 * n) : Nat) + (2 * n : Nat) * (m / (2 * n) : Nat) := by
      exact_mod_cast (Nat.mod_add_div m (2 * n)).symm
    have hneg : -(m : Int) = -(m % (2 * n) : Nat) + (2 * n : Nat) * -(m / (2 * n) : Nat) := by
      linear_combination (-1 : Int) * hdiv
    rw [hneg, Int.add_mul_emod_self_left]
  rw [Int.bmod_def, hmod]
  generalize m % (2 * n) = r at hlt
  cases r with
  | zero =>
    rw [Int.natCast_zero, Int.neg_zero, Int.zero_emod, if_pos (by omega)]
    simp
  | succ r =>
    have hneg : (-((r + 1 : Nat) : Int)) % (2 * n : Nat) = 2 * n - (r + 1) := by
      rw [← Int.add_emod_right, Int.emod_eq_of_lt (by omega) (by omega)]
      push_cast
      ring
    rw [hneg]
    split <;> omega

theorem hot_iff (hw : 16 ≤ w) (hadds : adds.length < 16384)
    : ExclusiveIntervalsIter.hot (BitVec.ofInt w (covering adds x - 32767 * covering subs x)) = true ↔
        if covering subs x = 0 then 0 < covering adds x
        else ¬ (32767 * covering subs x - covering adds x) % 2 ^ w ≤ 2 ^ (w - 1) := by
  have hle : covering adds x ≤ adds.length := List.countP_le_length
  have hpow : 2 ^ w = 2 * 2 ^ (w - 1) := by
    rw [← Nat.pow_succ']
    congr
    omega
  have hlarge : 2 ^ 15 ≤ 2 ^ (w - 1) := Nat.pow_le_pow_right (by decide) (by omega)
  rw [hot_ofInt_iff, hpow]
  generalize 2 ^ (w - 1) = n at hlarge
  split
  next h =>
    rw [h, Int.bmod_eq_of_le (by omega) (by omega)]
    omega
  next h =>
    have hneg : (covering adds x : Int) - 32767 * covering subs x
        =
      -(32767 * covering subs x - covering adds x : Nat) := by
      omega
    rw [hneg, bmod_neg_pos_iff (by omega)]

/--
Iterating over the intervals is the set difference of the added and the subtracted bounds if and only
if no sum of the weights wraps around.
-/
theorem exact_iff_withinRange (hw : 16 ≤ w) (sort : SortUnstable (@byPosAndDelta w))
    (adds subs : List Bound) (hlength : adds.length < 16384) (hadds : ∀ b ∈ adds, b.fits w)
    (hsubs : ∀ b ∈ subs, b.fits w)
    : Exact sort adds subs ↔ WithinRange w adds subs := by
  rw [exact_iff_forall_hot hadds hsubs]
  apply forall_congr'
  intro x
  rw [hot_iff hw hlength]
  split
  next h => simp [h]
  next h => simp [h, Nat.pos_of_ne_zero h]

theorem exact_oneHole
    : WithinRange 64 [⟨0, 10⟩] [⟨2, 3⟩] ∧
        Exact (SortUnstable.insertionSort (@byPosAndDelta 64)) [⟨0, 10⟩] [⟨2, 3⟩] := by
  have hrange : WithinRange 64 [⟨0, 10⟩] [⟨2, 3⟩] := by
    intro x _
    have hle : covering [⟨2, 3⟩] x ≤ 1 := List.countP_le_length
    exact (Nat.mod_le _ _).trans (by omega)
  exact ⟨hrange, (exact_iff_withinRange (by decide) _ _ _ (by decide) (by decide) (by decide)).mpr hrange⟩

-- Subtracting one bound 65539 times gives `-32767 * 65539`, which is positive in 32 bits.
theorem exact_manyHoles_false
    : ¬ Exact (SortUnstable.insertionSort (@byPosAndDelta 32)) [⟨0, 1⟩] (List.replicate 65539 ⟨0, 1⟩) := by
  have hfits : ∀ b ∈ List.replicate 65539 (⟨0, 1⟩ : Bound), b.fits 32 := by
    intro b hb
    rw [List.eq_of_mem_replicate hb]
    decide
  rw [exact_iff_forall_hot (by decide) hfits]
  intro h
  have hzero := h 0
  rw [hot_iff (by decide) (by decide), covering_replicate 65539 (by decide)] at hzero
  have hadds : covering [⟨0, 1⟩] 0 = 1 := by decide
  rw [hadds] at hzero
  exact absurd hzero (by decide)

end Exact

end ExclusiveIntervals

end Jrinx
