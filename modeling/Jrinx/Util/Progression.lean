import Mathlib.Tactic

/-!
This module contains offsets that repeat with every frame. They form an arithmetic progression if and
only if every offset is one step away from the next one, where the first offset of the next frame
comes after the last one.
-/

namespace Progression

def IsProgression (times : Set Nat) (step : Nat) : Prop :=
  ∃ first, times = Set.range (fun j => first + j * step)

def repeated (frame : Nat) (offsets : List Nat) : Set Nat :=
  {t | ∃ k, ∃ o ∈ offsets, t = k * frame + o}

def Cyclic (frame step : Nat) (offsets : List Nat) : Prop :=
  (offsets ++ (offsets.take 1).map (· + frame)).IsChain (fun o o' => o' = o + step)

variable {frame step : Nat} {offsets : List Nat}

theorem IsProgression.eq_add {times : Set Nat} {x y : Nat} (h : IsProgression times step)
    (hx : x ∈ times) (hy : y ∈ times) (hlt : x < y) (hgap : ∀ z ∈ times, x < z → y ≤ z)
    : y = x + step := by
  obtain ⟨first, rfl⟩ := h
  obtain ⟨i, rfl⟩ := hx
  obtain ⟨j, rfl⟩ := hy
  simp only [Nat.add_lt_add_iff_left] at hlt
  have hij : i < j := Nat.lt_of_mul_lt_mul_right hlt
  have hstep : 0 < step := by
    by_contra hzero
    simp [show step = 0 by omega] at hlt
  have hle := hgap (first + (i + 1) * step) ⟨i + 1, rfl⟩ (by simp only [Nat.add_mul]; omega)
  have hge : (i + 1) * step ≤ j * step := Nat.mul_le_mul_right step hij
  simp only [Nat.add_mul, Nat.one_mul] at hle hge ⊢
  omega

theorem getElem_of_isChain {o : Nat} {l : List Nat} (h : (o :: l).IsChain (fun o o' => o' = o + step))
    {i : Nat} (hi : i < (o :: l).length)
    : (o :: l)[i] = o + i * step := by
  induction l generalizing o i with
  | nil =>
    have hzero : i = 0 := by simpa using hi
    simp [hzero]
  | cons o' l ih =>
    obtain ⟨rfl, hrest⟩ := List.isChain_cons_cons.mp h
    cases i with
    | zero => simp
    | succ i =>
      rw [List.getElem_cons_succ, ih hrest]
      ring

theorem Cyclic.frame_eq (h : Cyclic frame step offsets) (hne : offsets ≠ [])
    : frame = offsets.length * step := by
  obtain ⟨o, l, rfl⟩ := List.exists_cons_of_ne_nil hne
  have hchain : (o :: (l ++ [o + frame])).IsChain (fun o o' => o' = o + step) := by
    simpa [Cyclic] using h
  have hlast := getElem_of_isChain (i := l.length + 1) hchain (by simp)
  simp only [List.getElem_cons_succ, List.getElem_concat_length] at hlast
  simp only [List.length_cons]
  omega

theorem Cyclic.getElem (h : Cyclic frame step offsets) {i : Nat} (hi : i < offsets.length)
    : offsets[i] = offsets[0] + i * step := by
  obtain ⟨o, l, rfl⟩ := List.exists_cons_of_ne_nil (List.ne_nil_of_length_pos (Nat.zero_lt_of_lt hi))
  have hchain : (o :: l).IsChain (fun o o' => o' = o + step) := (List.isChain_append.mp h).1
  exact getElem_of_isChain hchain hi

theorem Cyclic.isProgression (h : Cyclic frame step offsets) (hne : offsets ≠ [])
    : IsProgression (repeated frame offsets) step := by
  have hpos := List.length_pos_of_ne_nil hne
  refine ⟨offsets[0], Set.ext fun t => ?_⟩
  simp only [repeated, Set.mem_ofPred_eq, Set.mem_range]
  rw [h.frame_eq hne]
  constructor
  . rintro ⟨k, o, ho, rfl⟩
    obtain ⟨i, hi, rfl⟩ := List.mem_iff_getElem.mp ho
    refine ⟨k * offsets.length + i, ?_⟩
    rw [h.getElem hi]
    ring
  . rintro ⟨j, rfl⟩
    -- the number of the frame and the index of the offset in it
    have hi := Nat.mod_lt j hpos
    refine ⟨j / offsets.length, offsets[j % offsets.length], List.getElem_mem hi, ?_⟩
    have hj : offsets.length * (j / offsets.length) + j % offsets.length = j := Nat.div_add_mod _ _
    rw [h.getElem hi]
    calc
      offsets[0] + j * step
        = offsets[0] + (offsets.length * (j / offsets.length) + j % offsets.length) * step := by rw [hj]
      _ = _ := by ring

theorem mem_repeated_of_lt {t : Nat} (hlt : t < frame) (ht : t ∈ repeated frame offsets)
    : t ∈ offsets := by
  obtain ⟨k, o, ho, rfl⟩ := ht
  cases k with
  | zero => simpa using ho
  | succ k =>
    rw [Nat.add_mul] at hlt
    omega

theorem mem_repeated {o : Nat} (frame k : Nat) (ho : o ∈ offsets)
    : k * frame + o ∈ repeated frame offsets :=
  ⟨k, o, ho, rfl⟩

theorem isChain_of_isProgression (hsorted : offsets.Pairwise (· < ·)) (hlt : ∀ o ∈ offsets, o < frame)
    (h : IsProgression (repeated frame offsets) step)
    : offsets.IsChain (fun o o' => o' = o + step) := by
  rw [List.isChain_iff_getElem]
  intro i hi
  have hsorted := List.pairwise_iff_getElem.mp hsorted
  have hmem {j : Nat} (hj : j < offsets.length) : offsets[j] ∈ repeated frame offsets := by
    simpa using mem_repeated frame 0 (List.getElem_mem hj)
  refine h.eq_add (hmem _) (hmem _) (hsorted i (i + 1) _ _ (by omega)) ?_
  intro z hz hgt
  by_cases hframe : z < frame
  . obtain ⟨j, hj, rfl⟩ := List.mem_iff_getElem.mp (mem_repeated_of_lt hframe hz)
    have hij : i < j := by
      by_contra hle
      rcases Nat.lt_or_eq_of_le (Nat.le_of_not_lt hle) with hji | rfl
      . have := hsorted j i hj (by omega) hji
        omega
      . omega
    rcases Nat.lt_or_eq_of_le hij with hlt' | rfl
    . exact (hsorted (i + 1) j hi hj hlt').le
    . exact Nat.le_refl _
  . have := hlt _ (List.getElem_mem hi)
    omega

theorem eq_add_of_isProgression (hsorted : offsets.Pairwise (· < ·)) (hlt : ∀ o ∈ offsets, o < frame)
    (h : IsProgression (repeated frame offsets) step) {first last : Nat}
    (hfirst : first ∈ offsets.head?) (hlast : last ∈ offsets.getLast?)
    : first + frame = last + step := by
  have hfirstMem : first ∈ offsets := List.mem_of_mem_head? hfirst
  have hlastMem : last ∈ offsets := List.mem_of_mem_getLast? hlast
  refine h.eq_add ?_ ?_ ?_ ?_
  . simpa using mem_repeated frame 0 hlastMem
  . simpa [Nat.add_comm] using mem_repeated frame 1 hfirstMem
  . have := hlt _ hlastMem
    omega
  . rintro z ⟨k, o, ho, rfl⟩ hgt
    have hle : first ≤ o := by
      obtain ⟨l, rfl⟩ := List.head?_eq_some_iff.mp hfirst
      rcases List.mem_cons.mp ho with rfl | ho
      . exact Nat.le_refl _
      . exact ((List.pairwise_cons.mp hsorted).1 o ho).le
    have hge : o ≤ last := by
      obtain ⟨l, rfl⟩ := List.getLast?_eq_some_iff.mp hlast
      rcases List.mem_append.mp ho with ho | ho
      . exact ((List.pairwise_append.mp hsorted).2.2 o ho last (by simp)).le
      . simpa using (List.mem_singleton.mp ho).le
    cases k with
    | zero => omega
    | succ k =>
      rw [Nat.add_mul]
      omega

theorem isProgression_iff_cyclic (hsorted : offsets.Pairwise (· < ·)) (hlt : ∀ o ∈ offsets, o < frame)
    (hne : offsets ≠ [])
    : IsProgression (repeated frame offsets) step ↔ Cyclic frame step offsets := by
  constructor
  . intro h
    refine List.isChain_append.mpr ⟨isChain_of_isProgression hsorted hlt h, ?_, ?_⟩
    . obtain ⟨o, l, rfl⟩ := List.exists_cons_of_ne_nil hne
      simp
    . intro last hlast next hnext
      obtain ⟨o, l, rfl⟩ := List.exists_cons_of_ne_nil hne
      have hnext : next = o + frame := by simpa using hnext.symm
      rw [hnext]
      exact eq_add_of_isProgression hsorted hlt h (by simp) hlast
  . intro h
    exact h.isProgression hne

end Progression
