import Mathlib.Tactic
import Jrinx.Util.SortUnstable

/-!
This module contains the sweep over weighted positions: the weights are added up from left to right
and the sweep hands out the stretches on which the sum is hot. The sum at a position does not change
if the weights at one position are collapsed into one.
-/

universe u

namespace Sweep

variable {ω : Type u} [AddCommMonoid ω]

/--
The sum of `sum` and of all weights up to and including the position `x`.
-/
def level (sum : ω) (l : List (Nat × ω)) (x : Nat) : ω :=
  sum + ((l.filter (·.1 ≤ x)).map (·.2)).sum

/--
The stretches as pairs of their first position and the first one after them. There is no result if a
stretch ends that has no start.
-/
def sweep (hot : ω → Bool) (sum : ω) (left : Option Nat) (l : List (Nat × ω))
    : Option (List (Nat × Nat)) :=
  match l with
  | [] => some []
  | (pos, delta) :: l =>
    if !hot sum && hot (sum + delta) then
      sweep hot (sum + delta) (some pos) l
    else if hot sum && !hot (sum + delta) then
      match left with
      | none => none
      | some start => (sweep hot (sum + delta) none l).map ((start, pos) :: ·)
    else
      sweep hot (sum + delta) left l

def collapse (l : List (Nat × ω)) : List (Nat × ω) :=
  (SortedGroups.groups Prod.fst l).map (fun g => ((g.map (·.1)).headD 0, (g.map (·.2)).sum))

variable {hot : ω → Bool} {sum delta : ω} {left : Option Nat} {pos x : Nat} {l : List (Nat × ω)}

@[simp]
theorem level_nil : level sum [] x = sum := by
  simp [level]

theorem level_cons_of_le (h : pos ≤ x)
    : level sum ((pos, delta) :: l) x = level (sum + delta) l x := by
  simp [level, h, add_assoc]

theorem level_of_forall_lt (h : ∀ p ∈ l, x < p.1) : level sum l x = sum := by
  have hnone : l.filter (·.1 ≤ x) = [] := by
    apply List.filter_eq_nil_iff.mpr
    intro p hp
    simpa using h p hp
  simp [level, hnone]

theorem level_perm {l' : List (Nat × ω)} (h : l.Perm l') : level sum l x = level sum l' x := by
  rw [level, level, ((h.filter _).map _).sum_eq]

/--
What the sweep needs to know about its state: a stretch is open if and only if the sum is hot, the
positions to come are in order and behind the start of the open stretch and in the end the sum is
not hot.
-/
structure Ready (hot : ω → Bool) (sum : ω) (left : Option Nat) (l : List (Nat × ω)) : Prop where
  left_isSome : left.isSome = hot sum
  sorted : l.Pairwise (fun p q => p.1 < q.1)
  left_lt : ∀ start ∈ left, ∀ p ∈ l, start < p.1
  cold : hot (sum + (l.map (·.2)).sum) = false

theorem Ready.tail {left' : Option Nat} (h : Ready hot sum left ((pos, delta) :: l))
    (hsome : left'.isSome = hot (sum + delta)) (hmem : ∀ start ∈ left', start ∈ left ∨ start = pos)
    : Ready hot (sum + delta) left' l where
  left_isSome := hsome
  sorted := h.sorted.tail
  left_lt := by
    intro start hstart p hp
    rcases hmem start hstart with hold | rfl
    . exact h.left_lt start hold p (by simp [hp])
    . exact (List.pairwise_cons.mp h.sorted).1 p hp
  cold := by
    have hcold := h.cold
    rwa [List.map_cons, List.sum_cons, ← add_assoc] at hcold

/--
The result `out` of a sweep from the given state: the stretches are not empty, there is a gap between
any two of them and together they are the positions behind the open start at which the sum is hot.
-/
structure Stretches (hot : ω → Bool) (sum : ω) (left : Option Nat) (l : List (Nat × ω))
    (out : List (Nat × Nat)) : Prop where
  lt : ∀ i ∈ out, i.1 < i.2
  separated : out.Pairwise (fun i j => i.2 < j.1)
  start_mem : ∀ i ∈ out, left = some i.1 ∨ ∃ p ∈ l, p.1 = i.1
  covered : ∀ x, (∃ i ∈ out, i.1 ≤ x ∧ x < i.2) ↔
    (∀ start ∈ left, start ≤ x) ∧ hot (level sum l x) = true

variable {out : List (Nat × Nat)}

theorem Ready.level_of_lt (hready : Ready hot sum left ((pos, delta) :: l)) (h : x < pos)
    : level sum ((pos, delta) :: l) x = sum ∧ level (sum + delta) l x = sum + delta := by
  have hlater := (List.pairwise_cons.mp hready.sorted).1
  constructor
  . apply level_of_forall_lt
    intro p hp
    rcases List.mem_cons.mp hp with rfl | hp
    . exact h
    . exact h.trans (hlater p hp)
  . apply level_of_forall_lt
    intro p hp
    exact h.trans (hlater p hp)

theorem Stretches.rise (hready : Ready hot sum none ((pos, delta) :: l))
    (h : Stretches hot (sum + delta) (some pos) l out)
    : Stretches hot sum none ((pos, delta) :: l) out where
  lt := h.lt
  separated := h.separated
  start_mem := by
    intro i hi
    rcases h.start_mem i hi with hpos | ⟨p, hp, heq⟩
    . exact .inr ⟨(pos, delta), by simp, by simpa using hpos⟩
    . exact .inr ⟨p, by simp [hp], heq⟩
  covered := by
    intro x
    have hcold : hot sum = false := by simpa using hready.left_isSome.symm
    rw [h.covered]
    by_cases hx : pos ≤ x
    . simp [level_cons_of_le hx, hx]
    . simp [(hready.level_of_lt (Nat.lt_of_not_le hx)).1, hcold, hx]

theorem Stretches.fall {start : Nat} (hready : Ready hot sum (some start) ((pos, delta) :: l))
    (hcold : hot (sum + delta) = false) (h : Stretches hot (sum + delta) none l out)
    : Stretches hot sum (some start) ((pos, delta) :: l) ((start, pos) :: out) where
  lt := by
    intro i hi
    rcases List.mem_cons.mp hi with rfl | hi
    . exact hready.left_lt start rfl (pos, delta) (by simp)
    . exact h.lt i hi
  separated := by
    refine List.pairwise_cons.mpr ⟨?_, h.separated⟩
    intro i hi
    rcases h.start_mem i hi with hnone | ⟨p, hp, heq⟩
    . simp at hnone
    . rw [← heq]
      exact (List.pairwise_cons.mp hready.sorted).1 p hp
  start_mem := by
    intro i hi
    rcases List.mem_cons.mp hi with rfl | hi
    . exact .inl rfl
    . rcases h.start_mem i hi with hnone | ⟨p, hp, heq⟩
      . simp at hnone
      . exact .inr ⟨p, by simp [hp], heq⟩
  covered := by
    intro x
    have hhot : hot sum = true := by simpa using hready.left_isSome.symm
    have hstart : start < pos := hready.left_lt start rfl (pos, delta) (by simp)
    simp only [List.mem_cons, exists_eq_or_imp, h.covered]
    by_cases hx : pos ≤ x
    . have hle : start ≤ x := by omega
      simp [level_cons_of_le hx, hle, Nat.not_lt.mpr hx]
    . have hlt : x < pos := Nat.lt_of_not_le hx
      obtain ⟨hold, hnew⟩ := hready.level_of_lt hlt
      simp [hold, hnew, hhot, hcold, hlt]

theorem Stretches.keep (hready : Ready hot sum left ((pos, delta) :: l))
    (hsame : hot (sum + delta) = hot sum) (h : Stretches hot (sum + delta) left l out)
    : Stretches hot sum left ((pos, delta) :: l) out where
  lt := h.lt
  separated := h.separated
  start_mem := by
    intro i hi
    rcases h.start_mem i hi with hleft | ⟨p, hp, heq⟩
    . exact .inl hleft
    . exact .inr ⟨p, by simp [hp], heq⟩
  covered := by
    intro x
    rw [h.covered]
    by_cases hx : pos ≤ x
    . rw [level_cons_of_le hx]
    . obtain ⟨hold, hnew⟩ := hready.level_of_lt (Nat.lt_of_not_le hx)
      rw [hold, hnew, hsame]

theorem Ready.sweep_spec (hready : Ready hot sum left l)
    : ∃ out, sweep hot sum left l = some out ∧ Stretches hot sum left l out := by
  fun_induction sweep hot sum left l with
  | case1 sum left =>
    refine ⟨[], rfl, by simp, List.Pairwise.nil, by simp, ?_⟩
    have hcold := hready.cold
    simp_all
  | case2 sum left pos delta l hrise ih =>
    simp only [Bool.and_eq_true, Bool.not_eq_true'] at hrise
    obtain rfl : left = none := by
      have hnone := hready.left_isSome
      rwa [hrise.1, Option.isSome_eq_false_iff, Option.isNone_iff_eq_none] at hnone
    obtain ⟨out, hout, hspec⟩ := ih (hready.tail (by simp [hrise.2]) (by simp))
    exact ⟨out, hout, hspec.rise hready⟩
  | case3 sum pos delta l _ hfall =>
    -- the sum is hot, so a stretch is open
    simp only [Bool.and_eq_true] at hfall
    simpa [hfall.1] using hready.left_isSome
  | case4 sum pos delta l _ hfall start ih =>
    simp only [Bool.and_eq_true, Bool.not_eq_true'] at hfall
    obtain ⟨out, hout, hspec⟩ := ih (hready.tail (by simp [hfall.2]) (by simp))
    exact ⟨(start, pos) :: out, by rw [hout, Option.map_some], hspec.fall hready hfall.2⟩
  | case5 sum left pos delta l hrise hfall ih =>
    have hsame : hot (sum + delta) = hot sum := by
      cases hsum : hot sum <;> cases hnew : hot (sum + delta) <;> simp_all
    obtain ⟨out, hout, hspec⟩ :=
      ih (hready.tail (by rw [hready.left_isSome, hsame]) (fun _ hstart => .inl hstart))
    exact ⟨out, hout, hspec.keep hready hsame⟩

section Collapse

theorem level_map_groups (sum : ω) {gs : List (List (Nat × ω))} (hnil : [] ∉ gs)
    (hconst : ∀ g ∈ gs, ∀ p ∈ g, ∀ q ∈ g, p.1 = q.1)
    : level sum (gs.map (fun g => ((g.map (·.1)).headD 0, (g.map (·.2)).sum))) x
        =
      level sum gs.flatten x := by
  induction gs generalizing sum with
  | nil => rfl
  | cons g gs ih =>
    simp only [List.mem_cons, not_or] at hnil
    specialize ih 0 hnil.2 (fun g' hg' => hconst g' (by simp [hg']))
    simp only [level, zero_add] at ih
    obtain ⟨p, g, rfl⟩ := List.exists_cons_of_ne_nil (Ne.symm hnil.1)
    have hfilter : (p :: g).filter (·.1 ≤ x) = if p.1 ≤ x then p :: g else [] := by
      split
      next h =>
        apply List.filter_eq_self.mpr
        intro q hq
        rw [hconst _ (by simp) q hq p (by simp)]
        simpa using h
      next h =>
        apply List.filter_eq_nil_iff.mpr
        intro q hq
        rw [hconst _ (by simp) q hq p (by simp)]
        simpa using h
    rw [level, level, List.flatten_cons, List.filter_append, hfilter, List.map_append,
      List.sum_append, ← ih]
    by_cases h : p.1 ≤ x
    . simp [h]
    . simp [h]

theorem level_collapse : level sum (collapse l) x = level sum l x := by
  rw [collapse, level_map_groups]
  . rw [SortedGroups.groups, List.flatten_splitBy]
  . exact List.nil_notMem_splitBy _ _
  . intro g hg p hp q hq
    exact SortedGroups.eq_of_mem_group hg hp hq

theorem sum_collapse : ((collapse l).map (·.2)).sum = (l.map (·.2)).sum := by
  rw [collapse, List.map_map]
  have hflatten : l = (SortedGroups.groups Prod.fst l).flatten := by
    rw [SortedGroups.groups, List.flatten_splitBy]
  conv_rhs => rw [hflatten, List.map_flatten, List.sum_flatten, List.map_map]
  rfl

theorem pairwise_collapse (h : l.Pairwise (fun p q => p.1 ≤ q.1))
    : (collapse l).Pairwise (fun p q => p.1 < q.1) := by
  rw [collapse, List.pairwise_map]
  have hne : ∀ g ∈ SortedGroups.groups Prod.fst l, g ≠ [] :=
    fun g hg => List.ne_nil_of_mem_splitBy hg
  apply (SortedGroups.pairwise_groups h).imp_of_mem
  intro g g' hg hg' hlt
  obtain ⟨p, g, rfl⟩ := List.exists_cons_of_ne_nil (hne g hg)
  obtain ⟨q, g', rfl⟩ := List.exists_cons_of_ne_nil (hne g' hg')
  simpa using hlt p (by simp) q (by simp)

/--
The sweep over the collapsed weights hands out the positions at which all weights together are hot.
-/
theorem sweep_collapse (h : l.Pairwise (fun p q => p.1 ≤ q.1)) (hstart : hot 0 = false)
    (hend : hot (l.map (·.2)).sum = false)
    : ∃ out, sweep hot 0 none (collapse l) = some out ∧ (∀ i ∈ out, i.1 < i.2) ∧
        out.Pairwise (fun i j => i.2 < j.1) ∧
          ∀ x, (∃ i ∈ out, i.1 ≤ x ∧ x < i.2) ↔ hot (level 0 l x) = true := by
  have hready : Ready hot 0 none (collapse l) :=
    ⟨by simp [hstart], pairwise_collapse h, by simp, by rw [sum_collapse, zero_add, hend]⟩
  obtain ⟨out, hout, hspec⟩ := hready.sweep_spec
  refine ⟨out, hout, hspec.lt, hspec.separated, ?_⟩
  intro x
  rw [hspec.covered, level_collapse]
  simp

end Collapse

end Sweep
