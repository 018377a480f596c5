import Mathlib.Tactic

/-!
This module contains ranges that are walked with a step, the chunks that such a walk cuts a range into,
and the pages that it gets to.
-/

namespace StepBy

def stepBy (lo hi step : Nat) : List Nat := List.range' lo ((hi - lo + (step - 1)) / step) step

/--
The chunks follow each other from `lo` to `hi`, none of them is empty. A chunk is its start together with
its length.
-/
def Tiles (lo hi : Nat) (chunks : List (Nat × Nat)) : Prop :=
  match chunks with
  | [] => lo = hi
  | (start, len) :: chunks => start = lo ∧ 0 < len ∧ Tiles (lo + len) hi chunks

def chunksFrom (lo hi step : Nat) : List (Nat × Nat) :=
  (stepBy lo hi step).map (fun x => (x, min step (hi - x)))

variable {lo mid hi step : Nat}

theorem mem_stepBy (hstep : 0 < step) {x : Nat}
    : x ∈ stepBy lo hi step ↔ ∃ k, x = lo + k * step ∧ x < hi := by
  have hcount (k : Nat) : k < (hi - lo + (step - 1)) / step ↔ lo + k * step < hi := by
    rw [← Nat.add_one_le_iff, Nat.le_div_iff_mul_le hstep, Nat.add_one_mul]
    omega
  simp only [stepBy, List.mem_range']
  constructor
  . rintro ⟨k, hk, rfl⟩
    rw [Nat.mul_comm]
    exact ⟨k, rfl, (hcount k).mp hk⟩
  . rintro ⟨k, rfl, hlt⟩
    rw [Nat.mul_comm]
    exact ⟨k, (hcount k).mpr hlt, rfl⟩

theorem stepBy_of_le (hstep : 0 < step) (h : hi ≤ lo) : stepBy lo hi step = [] := by
  rw [List.eq_nil_iff_forall_not_mem]
  intro x hx
  obtain ⟨k, rfl, hlt⟩ := (mem_stepBy hstep).mp hx
  omega

theorem stepBy_of_lt (hstep : 0 < step) (h : lo < hi)
    : stepBy lo hi step = lo :: stepBy (lo + step) hi step := by
  have hcount : (hi - lo + (step - 1)) / step = (hi - (lo + step) + (step - 1)) / step + 1 := by
    by_cases hle : hi ≤ lo + step
    . have hzero : hi - (lo + step) = 0 := by omega
      have hone : (hi - lo + (step - 1)) / step = 1 := by
        apply Nat.div_eq_of_lt_le
        . omega
        . omega
      rw [hone, hzero, Nat.zero_add, Nat.div_eq_of_lt (by omega)]
    . rw [← Nat.add_div_right _ hstep]
      congr 1
      omega
  rw [stepBy, hcount, List.range'_succ]
  rfl

theorem pairwise_stepBy (hstep : 0 < step) : (stepBy lo hi step).Pairwise (fun x y => x + step ≤ y) := by
  generalize hn : hi - lo = n
  induction n using Nat.strongRecOn generalizing lo with
  | ind n ih =>
    subst hn
    by_cases hle : hi ≤ lo
    . rw [stepBy_of_le hstep hle]
      exact .nil
    . rw [stepBy_of_lt hstep (by omega)]
      refine .cons ?_ (ih (hi - (lo + step)) (by omega) rfl)
      intro y hy
      obtain ⟨k, rfl, _⟩ := (mem_stepBy hstep).mp hy
      omega

namespace Tiles

variable {chunks chunks' : List (Nat × Nat)}

theorem append (h : Tiles lo mid chunks) (h' : Tiles mid hi chunks') : Tiles lo hi (chunks ++ chunks') := by
  induction chunks generalizing lo with
  | nil =>
    obtain rfl : lo = mid := h
    exact h'
  | cons chunk chunks ih =>
    obtain ⟨hstart, hpos, hrest⟩ := h
    exact ⟨hstart, hpos, ih hrest⟩

theorem exists_mem (h : Tiles lo hi chunks) {i : Nat} (hlo : lo ≤ i) (hhi : i < hi)
    : ∃ chunk ∈ chunks, chunk.1 ≤ i ∧ i < chunk.1 + chunk.2 := by
  induction chunks generalizing lo with
  | nil =>
    obtain rfl : lo = hi := h
    omega
  | cons chunk chunks ih =>
    obtain ⟨hstart, hpos, hrest⟩ := h
    by_cases hi : i < lo + chunk.2
    . exact ⟨chunk, List.mem_cons_self, by omega, by omega⟩
    . obtain ⟨chunk', hmem, hchunk⟩ := ih hrest (by omega)
      exact ⟨chunk', List.mem_cons_of_mem chunk hmem, hchunk⟩

end Tiles

theorem tiles_chunksFrom (hstep : 0 < step) (h : lo ≤ hi) : Tiles lo hi (chunksFrom lo hi step) := by
  generalize hn : hi - lo = n
  induction n using Nat.strongRecOn generalizing lo with
  | ind n ih =>
    subst hn
    by_cases heq : lo = hi
    . rw [chunksFrom, stepBy_of_le hstep (by omega)]
      exact heq
    . rw [chunksFrom, stepBy_of_lt hstep (by omega), List.map_cons]
      refine ⟨rfl, by omega, ?_⟩
      by_cases hle : lo + step ≤ hi
      . rw [Nat.min_eq_left (by omega)]
        exact ih (hi - (lo + step)) (by omega) hle rfl
      . -- the last chunk is cut off
        rw [Nat.min_eq_right (by omega), stepBy_of_le hstep (by omega), Nat.add_sub_cancel' h]
        exact rfl

theorem add_mul_div (page lo k : Nat) (hpage : 0 < page) : (lo + k * page) / page = lo / page + k :=
  Nat.add_mul_div_right lo k hpage

theorem add_mul_mod (page lo k : Nat) : (lo + k * page) % page = lo % page :=
  Nat.add_mul_mod_self_right lo k page

/--
A walk whose step is the size of a page gets to every page of a range if and only if the place in the
first page that it starts from is not behind the place in the last page that the range ends at.
-/
theorem reaches_iff {page : Nat} (hpage : 0 < page) (h : lo < hi)
    : (∀ x, lo ≤ x → x < hi → ∃ k, lo + k * page < hi ∧ (lo + k * page) / page = x / page) ↔
        lo % page ≤ (hi - 1) % page := by
  constructor
  . intro hall
    obtain ⟨k, hlt, hsame⟩ := hall (hi - 1) (by omega) (by omega)
    have hplace := Nat.div_add_mod (lo + k * page) page
    have hend := Nat.div_add_mod (hi - 1) page
    rw [hsame, add_mul_mod] at hplace
    omega
  . intro hle x hlo hhi
    have hpages : lo / page ≤ x / page := Nat.div_le_div_right hlo
    have hlast : x / page ≤ (hi - 1) / page := Nat.div_le_div_right (by omega)
    refine ⟨x / page - lo / page, ?_, ?_⟩
    . have hplace := Nat.div_add_mod (lo + (x / page - lo / page) * page) page
      have hend := Nat.div_add_mod (hi - 1) page
      rw [add_mul_div _ _ _ hpage, add_mul_mod, Nat.add_sub_cancel' hpages] at hplace
      have hmul : page * (x / page) ≤ page * ((hi - 1) / page) := Nat.mul_le_mul_left page hlast
      omega
    . rw [add_mul_div _ _ _ hpage]
      omega

end StepBy
