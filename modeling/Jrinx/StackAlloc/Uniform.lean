import Jrinx.StackAlloc.Disjoint

/-!
This module contains where the stacks of an allocator lie if all of them have the same size. The check of
the bump pointer leaves out the guard, so the last stack may reach over the end of the region.
-/

namespace Jrinx

open Std

universe u

variable {σ : Type u}

namespace StackAllocator

-- A stack of the given size starts at `lo`, above its guard.
def IsStack (region : Nat × Nat) (guard size lo : Nat) : Prop :=
  ∃ n, lo = region.1 + n * (size + guard) ∧ n * (size + guard) + size ≤ region.2 + guard

/--
Only stacks of one size have been allocated.
-/
structure Uniform (region : Nat × Nat) (guard size : Nat) (a : StackAllocator) : Prop where
  region_eq : a.region = region
  guard_eq : a.guardSize = guard
  guard_le : guard ≤ region.1
  next : ∃ n, a.next + guard = region.1 + n * (size + guard)
  next_le : a.next ≤ region.1 + region.2 + guard
  allocated : ∀ top size', a.allocated[top]? = some size' →
    size' = size ∧ ∃ lo, IsStack region guard size lo ∧ top = lo + size
  cached : ∀ va ∈ a.cached.getD size [], IsStack region guard size (va + guard)

def uniform (size : Nat) (_ : StackAllocator × σ) (call : StackCall) : Prop :=
  match call with
  | .allocate size' => size' = size
  | .deallocate _ => True

instance (size : Nat) (s : StackAllocator × σ) (call : StackCall) : Decidable (uniform size s call) :=
  match call with
  | .allocate size' => inferInstanceAs (Decidable (size' = size))
  | .deallocate _ => inferInstanceAs (Decidable True)

def Keeps (cb : Callbacks σ) (region : Nat × Nat) (guard size : Nat) (p : σ → Prop) : Prop :=
  ∀ lo, IsStack region guard size lo → ∀ addr ∈ pages lo size, ∀ s, p s →
    p (cb.map addr s).2 ∧ p (cb.unmap addr s).2

variable {region : Nat × Nat} {guard size : Nat} {a : StackAllocator} {cb : Callbacks σ} {p : σ → Prop}

theorem forEach_keeps {f : MapperOrUnmapperFn σ} {addrs : List Nat} {s : σ}
    (hf : ∀ addr ∈ addrs, ∀ s, p s → p (f addr s).2) (hs : p s)
    : p (forEach f addrs s).2 := by
  induction addrs generalizing s with
  | nil => exact hs
  | cons addr addrs ih =>
    have hnext := hf addr (by simp) s hs
    rw [forEach]
    split
    next heq =>
      rw [heq] at hnext
      exact ih (fun addr' haddr' => hf addr' (by simp [haddr'])) hnext
    next heq =>
      rw [heq] at hnext
      exact hnext

theorem Uniform.mapStack (h : Uniform region guard size a) (hkeeps : Keeps cb region guard size p) {va : Nat}
    {s : σ} (hs : p s) (hstack : IsStack region guard size (va + guard))
    : Uniform region guard size (allocate.mapStack cb a va size s).2.1 ∧
        p (allocate.mapStack cb a va size s).2.2 ∧
        ∀ top, (allocate.mapStack cb a va size s).1 = .ok top →
          ∃ lo, IsStack region guard size lo ∧ top = lo + size := by
  have hsnd := mapStack_snd cb a ⟨va, size⟩ s
  have htop : Block.top guard ⟨va, size⟩ = va + guard + size := by
    simp only [Block.top]
    omega
  dsimp only at hsnd
  rw [h.guard_eq] at hsnd
  rw [hsnd]
  refine ⟨⟨h.region_eq, h.guard_eq, h.guard_le, h.next, h.next_le, ?_, h.cached⟩, ?_, ?_⟩
  . intro top size' hget
    simp only [insertAllocated, ExtTreeMap.getElem?_insert, Nat.compare_eq_eq, h.guard_eq, htop] at hget
    split at hget
    next heq =>
      obtain rfl := Option.some.inj hget
      exact ⟨rfl, va + guard, hstack, heq.symm⟩
    next => exact h.allocated top size' hget
  . apply forEach_keeps _ hs
    intro addr haddr s hs
    exact (hkeeps _ hstack addr haddr s hs).1
  . intro top hok
    have heq := mapStack_ok (b := ⟨va, size⟩) hok
    rw [h.guard_eq, htop] at heq
    exact ⟨va + guard, hstack, heq⟩

theorem Uniform.allocate (h : Uniform region guard size a) (hkeeps : Keeps cb region guard size p)
    (hsize : nextMultipleOf size pageSize = size) {s : σ} (hs : p s)
    : Uniform region guard size (a.allocate cb size s).2.1 ∧ p (a.allocate cb size s).2.2 ∧
        ∀ top, (a.allocate cb size s).1 = .ok top →
          ∃ lo, IsStack region guard size lo ∧ top = lo + size := by
  rw [StackAllocator.allocate, hsize]
  dsimp only
  split
  next va rest hcached =>
    have hmem (va' : Nat) (hva' : va' ∈ va :: rest) : IsStack region guard size (va' + guard) :=
      h.cached va' (by rw [hcached]; exact hva')
    apply Uniform.mapStack _ hkeeps hs (hmem va (by simp))
    refine ⟨h.region_eq, h.guard_eq, h.guard_le, h.next, h.next_le, h.allocated, ?_⟩
    intro va' hva'
    simp only [ExtTreeMap.getD_insert_self] at hva'
    exact hmem va' (by simp [hva'])
  next hcached =>
    have hnil (va : Nat) (hva : va ∈ (a.cached.insert size []).getD size [])
        : IsStack region guard size (va + guard) := by
      simp at hva
    split
    next => exact ⟨⟨h.region_eq, h.guard_eq, h.guard_le, h.next, h.next_le, h.allocated, hnil⟩, hs, by simp⟩
    next hle =>
      obtain ⟨n, hn⟩ := h.next
      have hstack : IsStack region guard size (a.next + guard) := by
        refine ⟨n, hn, ?_⟩
        rw [h.region_eq] at hle
        omega
      apply Uniform.mapStack _ hkeeps hs hstack
      rw [h.region_eq] at hle
      refine ⟨h.region_eq, h.guard_eq, h.guard_le, ⟨n + 1, ?_⟩, ?_, h.allocated, hnil⟩
      . dsimp only
        rw [h.guard_eq, Nat.add_mul]
        omega
      . dsimp only
        rw [h.guard_eq]
        omega

theorem Uniform.deallocate (h : Uniform region guard size a) (hkeeps : Keeps cb region guard size p)
    (top : Nat) {s : σ} (hs : p s)
    : Uniform region guard size (a.deallocate cb top s).2.1 ∧ p (a.deallocate cb top s).2.2 := by
  rw [StackAllocator.deallocate]
  split
  next => exact ⟨h, hs⟩
  next size' hget =>
    obtain ⟨rfl, lo, hstack, rfl⟩ := h.allocated top size' hget
    have hlo : guard ≤ lo := by
      obtain ⟨n, rfl, _⟩ := hstack
      exact h.guard_le.trans (Nat.le_add_right _ _)
    have hva : lo + size' - size' - a.guardSize + a.guardSize = lo := by
      rw [h.guard_eq]
      omega
    have hkept : p (forEach cb.unmap (pages lo size') s).2 := by
      apply forEach_keeps _ hs
      intro addr haddr s hs
      exact (hkeeps lo hstack addr haddr s hs).2
    have hallocated (top size : Nat) (hget : (a.allocated.erase (lo + size'))[top]? = some size)
        : size = size' ∧ ∃ lo, IsStack region guard size' lo ∧ top = lo + size' := by
      rw [ExtTreeMap.getElem?_erase] at hget
      split at hget
      next => simp at hget
      next => exact h.allocated top size hget
    dsimp only
    rw [hva]
    split
    next heq =>
      rw [heq] at hkept
      refine ⟨⟨h.region_eq, h.guard_eq, h.guard_le, h.next, h.next_le, hallocated, ?_⟩, hkept⟩
      intro va hmem
      simp only [ExtTreeMap.getD_insert_self, List.mem_cons] at hmem
      rcases hmem with rfl | hmem
      . rw [h.guard_eq] at hva ⊢
        rw [hva]
        exact hstack
      . exact h.cached va hmem
    next heq =>
      rw [heq] at hkept
      exact ⟨⟨h.region_eq, h.guard_eq, h.guard_le, h.next, h.next_le, hallocated, h.cached⟩, hkept⟩

theorem uniform_new (hguard : nextMultipleOf guard pageSize = guard) (hle : guard ≤ region.1)
    : Uniform region guard size (new region guard) := by
  refine ⟨rfl, hguard, hle, ⟨0, ?_⟩, ?_, ?_, ?_⟩
  . rw [new, hguard]
    dsimp only
    omega
  . rw [new, hguard]
    dsimp only
    omega
  . simp [new]
  . simp [new]

theorem Uniform.fits {w : Nat} (h : Uniform region guard size a)
    (hsize : nextMultipleOf size pageSize = size) (hend : region.1 + region.2 + guard + size < 2 ^ w)
    : allocate.fits w a size = true := by
  have hnext := h.next_le
  rw [allocate.fits, hsize]
  split
  next va rest hcached =>
    obtain ⟨n, hn, hfits⟩ := h.cached va (by simp [hcached])
    rw [h.guard_eq, decide_eq_true_eq]
    omega
  next hcached =>
    simp only [h.region_eq, h.guard_eq, Bool.and_eq_true, Bool.or_eq_true, decide_eq_true_eq]
    refine ⟨⟨by omega, by omega⟩, ?_⟩
    by_cases hover : a.next + size > region.1 + region.2
    . exact .inl hover
    . right
      omega

theorem uniform_of_run (hkeeps : Keeps cb region guard size p)
    (hsize : nextMultipleOf size pageSize = size) (hguard : nextMultipleOf guard pageSize = guard)
    (hle : guard ≤ region.1) {s s' : σ} (hs : p s) {calls : List StackCall}
    (hrun : Run (step cb) (uniform size) (new region guard, s) calls (a, s'))
    : Uniform region guard size a ∧ p s' := by
  apply hrun.invariant (fun st => Uniform region guard size st.1 ∧ p st.2) ⟨uniform_new hguard hle, hs⟩
  intro st st' call hinv hallowed hstep
  cases call with
  | allocate size' =>
    obtain rfl : size' = size := hallowed
    obtain rfl := Outcome.next.inj hstep
    obtain ⟨huniform, hp, _⟩ := hinv.1.allocate hkeeps hsize hinv.2
    exact ⟨huniform, hp⟩
  | deallocate top =>
    obtain rfl := Outcome.next.inj hstep
    exact hinv.1.deallocate hkeeps top hinv.2

theorem isStack_of_run (hsize : nextMultipleOf size pageSize = size)
    (hguard : nextMultipleOf guard pageSize = guard) (hle : guard ≤ region.1) {s s' : σ}
    {calls : List StackCall} (hrun : Run (step cb) (uniform size) (new region guard, s) calls (a, s'))
    : (∀ top, (a.allocate cb size s').1 = .ok top →
        ∃ lo, IsStack region guard size lo ∧ top = lo + size) ∧
      ∀ w, region.1 + region.2 + guard + size < 2 ^ w → allocate.fits w a size = true := by
  have hkeeps : Keeps cb region guard size (fun _ => True) := fun _ _ _ _ _ _ => ⟨trivial, trivial⟩
  obtain ⟨huniform, _⟩ := uniform_of_run hkeeps hsize hguard hle trivial hrun
  exact ⟨(huniform.allocate hkeeps hsize trivial).2.2, fun w hend => huniform.fits hsize hend⟩

section Reach

def succeeds : Callbacks Unit where
  map := fun _ s => (.ok (), s)
  unmap := fun _ s => (.ok (), s)

theorem forEach_succeeds (addrs : List Nat) : forEach succeeds.map addrs () = (.ok (), ()) := by
  induction addrs with
  | nil => rfl
  | cons addr addrs ih => exact ih

-- The bump pointer has moved over `n` stacks, none of them was given back.
structure Bumped (region : Nat × Nat) (guard size n : Nat) (a : StackAllocator) : Prop where
  region_eq : a.region = region
  guard_eq : a.guardSize = guard
  next : a.next + guard = region.1 + n * (size + guard)
  cached : a.cached.getD size [] = []

theorem Bumped.allocate {n : Nat} (h : Bumped region guard size n a)
    (hsize : nextMultipleOf size pageSize = size) (hfits : n * (size + guard) + size ≤ region.2 + guard)
    : (a.allocate succeeds size ()).1 = .ok (region.1 + n * (size + guard) + size) ∧
        Bumped region guard size (n + 1) (a.allocate succeeds size ()).2.1 := by
  have hnext := h.next
  have hle : ¬ a.next + size > a.region.1 + a.region.2 := by
    rw [h.region_eq]
    omega
  rw [StackAllocator.allocate, hsize]
  simp only [h.cached, if_neg hle, allocate.mapStack, forEach_succeeds, h.guard_eq, Except.ok.injEq]
  refine ⟨by omega, ⟨h.region_eq, rfl, ?_, by simp⟩⟩
  dsimp only
  rw [Nat.add_mul]
  omega

theorem exists_run_of_isStack (hsize : nextMultipleOf size pageSize = size)
    (hguard : nextMultipleOf guard pageSize = guard) (hle : guard ≤ region.1) {lo : Nat}
    (hstack : IsStack region guard size lo)
    : ∃ calls a, Run (step succeeds) (uniform size) (new region guard, ()) calls (a, ()) ∧
        (a.allocate succeeds size ()).1 = .ok (lo + size) := by
  obtain ⟨n, rfl, hfits⟩ := hstack
  have hreach (m : Nat) (hm : m ≤ n)
      : ∃ calls a, Run (step succeeds) (uniform size) (new region guard, ()) calls (a, ()) ∧
          Bumped region guard size m a := by
    induction m with
    | zero =>
      refine ⟨[], new region guard, .nil _, rfl, hguard, ?_, by simp [new]⟩
      rw [new, hguard]
      dsimp only
      omega
    | succ m ih =>
      obtain ⟨calls, a, hrun, hbumped⟩ := ih (Nat.le_of_succ_le hm)
      have hfits' : m * (size + guard) + size ≤ region.2 + guard := by
        have hmul := Nat.mul_le_mul_right (size + guard) (Nat.le_of_succ_le hm)
        omega
      have hlast : Run (step succeeds) (uniform size) (a, ()) [.allocate size] (a.allocate succeeds size ()).2 :=
        .cons rfl rfl (.nil _)
      exact ⟨_, _, hrun.append hlast, (hbumped.allocate hsize hfits').2⟩
  obtain ⟨calls, a, hrun, hbumped⟩ := hreach n (Nat.le_refl n)
  exact ⟨calls, a, hrun, (hbumped.allocate hsize hfits).1⟩

end Reach

end StackAllocator

end Jrinx
