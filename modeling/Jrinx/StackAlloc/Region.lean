import Jrinx.StackAlloc.Uniform

/-!
This module contains which stacks lie in the region of their allocator. The bump pointer is the start of a
guard, but the check against the end of the region is made as if the stack started there.
-/

namespace Jrinx

open Std

universe u

variable {σ : Type u}

namespace StackAllocator

def takes? (a : StackAllocator) (size : Nat) : Option Nat :=
  match a.cached.getD size [] with
  | va :: _ => some va
  | [] => if a.next + size > a.region.1 + a.region.2 then none else some a.next

def mapResult (cb : Callbacks σ) (a : StackAllocator) (size : Nat) (s : σ)
    : Option (Except InternalError Unit) :=
  let size := nextMultipleOf size pageSize
  (a.takes? size).map fun va => (forEach cb.map (pages (va + a.guardSize) size) s).1

/--
No block of the size is cached, and the next stack would not fit into the region.
-/
def NoRoom (a : StackAllocator) (size : Nat) : Prop :=
  let size := nextMultipleOf size pageSize
  a.cached.getD size [] = [] ∧ a.region.1 + a.region.2 < a.next + a.guardSize + size

-- The check does not notice that there is no room.
def Overruns (a : StackAllocator) (size : Nat) : Prop :=
  a.NoRoom size ∧ a.next + nextMultipleOf size pageSize ≤ a.region.1 + a.region.2

instance (a : StackAllocator) (size : Nat) : Decidable (a.NoRoom size) :=
  inferInstanceAs (Decidable (_ ∧ _))

instance (a : StackAllocator) (size : Nat) : Decidable (a.Overruns size) :=
  inferInstanceAs (Decidable (_ ∧ _))

/--
An allocation returns a stack in the region, and `NotEnoughMem` if and only if there is no room for it.
-/
def InRegion (cb : Callbacks σ) (a : StackAllocator) (size : Nat) (s : σ) : Prop :=
  (∀ top, (a.allocate cb size s).1 = .ok top →
    a.region.1 + nextMultipleOf size pageSize ≤ top ∧ top ≤ a.region.1 + a.region.2) ∧
  ((a.allocate cb size s).1 = .error .notEnoughMem ↔ a.NoRoom size)

-- The addresses fit into a word, and the check is right.
def noticed (w : Nat) (st : StackAllocator × σ) (call : StackCall) : Prop :=
  match call with
  | .allocate size => allocate.fits w st.1 size = true ∧ ¬ st.1.Overruns size
  | .deallocate _ => True

instance (w : Nat) (st : StackAllocator × σ) (call : StackCall) : Decidable (noticed w st call) :=
  match call with
  | .allocate size =>
    inferInstanceAs (Decidable (allocate.fits w st.1 size = true ∧ ¬ st.1.Overruns size))
  | .deallocate _ => inferInstanceAs (Decidable True)

/--
All stacks that are allocated or cached lie in the region, and so does the start of the next one.
-/
structure Inside (region : Nat × Nat) (guard : Nat) (a : StackAllocator) : Prop where
  region_eq : a.region = region
  guard_eq : a.guardSize = guard
  guard_le : guard ≤ region.1
  next : region.1 ≤ a.next + guard
  allocated : ∀ top size, a.allocated[top]? = some size →
    region.1 + size ≤ top ∧ top ≤ region.1 + region.2
  cached : ∀ size, ∀ va ∈ a.cached.getD size [],
    region.1 ≤ va + guard ∧ va + guard + size ≤ region.1 + region.2

variable {region : Nat × Nat} {guard size : Nat} {a : StackAllocator} {cb : Callbacks σ} {s : σ}

theorem allocate_fst (cb : Callbacks σ) (a : StackAllocator) (size : Nat) (s : σ)
    : (a.allocate cb size s).1 =
        match a.takes? (nextMultipleOf size pageSize), mapResult cb a size s with
        | some va, some (.ok _) => .ok (va + nextMultipleOf size pageSize + a.guardSize)
        | some _, some (.error e) => .error e
        | _, _ => .error .notEnoughMem := by
  rw [allocate, mapResult]
  generalize nextMultipleOf size pageSize = size
  simp only [takes?]
  cases a.cached.getD size [] with
  | cons va rest =>
    simp only [allocate.mapStack, Option.map_some]
    split <;> simp_all
  | nil =>
    dsimp only
    split
    . rfl
    . simp only [allocate.mapStack, Option.map_some]
      split <;> simp_all

theorem takes?_eq_some {va : Nat} (h : a.takes? size = some va)
    : (∃ rest, a.cached.getD size [] = va :: rest) ∨
        a.cached.getD size [] = [] ∧ a.next = va ∧ a.next + size ≤ a.region.1 + a.region.2 := by
  rw [takes?] at h
  split at h
  next va' rest hcached => exact .inl ⟨rest, by rw [hcached, Option.some.inj h]⟩
  next hcached =>
    split at h
    next => simp at h
    next hle => exact .inr ⟨hcached, Option.some.inj h, Nat.le_of_not_lt hle⟩

theorem takes?_eq_none_iff
    : a.takes? size = none ↔
        a.cached.getD size [] = [] ∧ a.region.1 + a.region.2 < a.next + size := by
  rw [takes?]
  split
  next hcached => simp [hcached]
  next hcached => simp [hcached]

theorem not_noRoom_of_cached {va : Nat} {rest : List Nat}
    (h : a.cached.getD (nextMultipleOf size pageSize) [] = va :: rest)
    : ¬ a.NoRoom size := by
  rintro ⟨hnil, _⟩
  simp [h] at hnil

theorem Inside.mapStack (h : Inside region guard a) {va : Nat}
    (hva : region.1 ≤ va + guard ∧ va + guard + size ≤ region.1 + region.2)
    : Inside region guard (allocate.mapStack cb a va size s).2.1 := by
  have hsnd := mapStack_snd cb a ⟨va, size⟩ s
  dsimp only at hsnd
  rw [hsnd]
  refine ⟨h.region_eq, h.guard_eq, h.guard_le, h.next, ?_, h.cached⟩
  intro top size' hget
  simp only [insertAllocated, ExtTreeMap.getElem?_insert, Nat.compare_eq_eq, Block.top, h.guard_eq] at hget
  split at hget
  next heq =>
    obtain rfl := Option.some.inj hget
    omega
  next => exact h.allocated top size' hget

theorem Inside.allocate (h : Inside region guard a) (hnoticed : ¬ a.Overruns size)
    : Inside region guard (a.allocate cb size s).2.1 := by
  rw [Overruns, NoRoom] at hnoticed
  rw [StackAllocator.allocate]
  generalize nextMultipleOf size pageSize = size at hnoticed
  dsimp only at hnoticed ⊢
  split
  next va rest hcached =>
    apply Inside.mapStack _ (h.cached size va (by simp [hcached]))
    refine ⟨h.region_eq, h.guard_eq, h.guard_le, h.next, h.allocated, ?_⟩
    intro size' va' hva'
    simp only [ExtTreeMap.getD_insert, Nat.compare_eq_eq] at hva'
    split at hva'
    next heq =>
      subst heq
      exact h.cached size va' (by simp [hcached, hva'])
    next => exact h.cached size' va' hva'
  next hcached =>
    have hempty (size' va : Nat) (hva : va ∈ (a.cached.insert size []).getD size' [])
        : region.1 ≤ va + guard ∧ va + guard + size' ≤ region.1 + region.2 := by
      simp only [ExtTreeMap.getD_insert, Nat.compare_eq_eq] at hva
      split at hva
      next => simp at hva
      next => exact h.cached size' va hva
    split
    next => exact ⟨h.region_eq, h.guard_eq, h.guard_le, h.next, h.allocated, hempty⟩
    next hle =>
      have hnext := h.next
      simp only [hcached, true_and, h.region_eq, h.guard_eq] at hnoticed hle
      apply Inside.mapStack
      . refine ⟨h.region_eq, h.guard_eq, h.guard_le, ?_, h.allocated, hempty⟩
        dsimp only
        omega
      . omega

theorem Inside.deallocate (h : Inside region guard a) (top : Nat)
    : Inside region guard (a.deallocate cb top s).2.1 := by
  rw [StackAllocator.deallocate]
  split
  next => exact h
  next size hget =>
    obtain ⟨hlow, hhigh⟩ := h.allocated top size hget
    have hguard := h.guard_le
    have herase (top' size' : Nat) (hget : (a.allocated.erase top)[top']? = some size')
        : region.1 + size' ≤ top' ∧ top' ≤ region.1 + region.2 := by
      rw [ExtTreeMap.getElem?_erase] at hget
      split at hget
      next => simp at hget
      next => exact h.allocated top' size' hget
    dsimp only
    split
    next =>
      refine ⟨h.region_eq, h.guard_eq, h.guard_le, h.next, herase, ?_⟩
      intro size' va hva
      simp only [ExtTreeMap.getD_insert, Nat.compare_eq_eq] at hva
      split at hva
      next heq =>
        subst heq
        rcases List.mem_cons.mp hva with rfl | hva
        . rw [h.guard_eq]
          omega
        . exact h.cached size va hva
      next => exact h.cached size' va hva
    next => exact ⟨h.region_eq, h.guard_eq, h.guard_le, h.next, herase, h.cached⟩

theorem inside_new {w : Nat} {guardSize : Nat} (hfits : new.fits w region guardSize = true)
    : Inside region (nextMultipleOf guardSize pageSize) (new region guardSize) := by
  simp only [new.fits, Bool.and_eq_true, decide_eq_true_eq] at hfits
  refine ⟨rfl, rfl, hfits.1, ?_, by simp [new], by simp [new]⟩
  simp only [new]
  omega

theorem Inside.inRegion_iff (h : Inside region guard a) (size : Nat)
    : InRegion cb a size s ↔
        (a.Overruns size ↔ mapResult cb a size s = some (.error .notEnoughMem)) := by
  have hsize : ∀ va, a.takes? (nextMultipleOf size pageSize) = some va → ¬ a.Overruns size →
      ¬ a.NoRoom size ∧ region.1 ≤ va + guard ∧
        va + guard + nextMultipleOf size pageSize ≤ region.1 + region.2 := by
    intro va htakes hnoticed
    rcases takes?_eq_some htakes with ⟨rest, hcached⟩ | ⟨hcached, rfl, hle⟩
    . exact ⟨not_noRoom_of_cached hcached, h.cached _ va (by simp [hcached])⟩
    . have hroom : ¬ a.NoRoom size := fun hroom => hnoticed ⟨hroom, hle⟩
      have hnext := h.next
      refine ⟨hroom, hnext, ?_⟩
      simp only [NoRoom, hcached, true_and, h.region_eq, h.guard_eq] at hroom
      omega
  rw [InRegion, allocate_fst, h.region_eq, h.guard_eq]
  cases htakes : a.takes? (nextMultipleOf size pageSize) with
  | none =>
    obtain ⟨hcached, hlt⟩ := takes?_eq_none_iff.mp htakes
    have hroom : a.NoRoom size := by
      refine ⟨hcached, ?_⟩
      omega
    have hnoticed : ¬ a.Overruns size := fun hoverruns => absurd hoverruns.2 (by omega)
    simp [mapResult, htakes, hroom, hnoticed]
  | some va =>
    cases hresult : mapResult cb a size s with
    | none => simp [mapResult, htakes] at hresult
    | some result =>
      by_cases hoverruns : a.Overruns size
      . -- the block is the next one, and it ends behind the region
        have hroom := hoverruns.1
        have htop : ¬ va + nextMultipleOf size pageSize + guard ≤ region.1 + region.2 := by
          rcases takes?_eq_some htakes with ⟨rest, hcached⟩ | ⟨_, rfl, _⟩
          . exact absurd hroom (not_noRoom_of_cached hcached)
          . have hlt := hroom.2
            simp only [h.region_eq, h.guard_eq] at hlt
            omega
        cases result with
        | ok => simp [hoverruns, htop]
        | error e => simp [hoverruns, hroom]
      . obtain ⟨hroom, hlow, hhigh⟩ := hsize va htakes hoverruns
        cases result with
        | ok =>
          simp only [hoverruns, hroom]
          simp
          omega
        | error e => simp [hoverruns, hroom]

/--
In every run in which the check has always been right, an allocation stays in the region if and only if
the check is right once more, or `NotEnoughMem` comes from the callback for a stack without room.
-/
theorem inRegion_iff_of_run {w : Nat} {guardSize : Nat} {s' : σ} {calls : List StackCall}
    (hfits : new.fits w region guardSize = true)
    (hrun : Run (step cb) (noticed w) (new region guardSize, s) calls (a, s')) (size : Nat)
    : InRegion cb a size s' ↔
        (a.Overruns size ↔ mapResult cb a size s' = some (.error .notEnoughMem)) := by
  have hinside : Inside region (nextMultipleOf guardSize pageSize) a := by
    apply hrun.invariant (fun st => Inside region (nextMultipleOf guardSize pageSize) st.1)
      (inside_new hfits)
    intro st st' call h hnoticed hstep
    cases call with
    | allocate size =>
      obtain rfl := Outcome.next.inj hstep
      exact h.allocate hnoticed.2
    | deallocate top =>
      obtain rfl := Outcome.next.inj hstep
      exact h.deallocate top
  exact hinside.inRegion_iff size

-- The second stack ends with the region.
theorem inRegion_lastStack
    : ∃ a, Run (step succeeds) (noticed 64) (new (0x10000, 0x4000) 0x1000, ()) [.allocate 0x1000] (a, ()) ∧
        InRegion succeeds a 0x2000 () := by
  obtain ⟨⟨a, ⟨⟩⟩, hrun, hnoticed⟩ := exists_run_of_exec (checked (step succeeds) (noticed 64))
    (new (0x10000, 0x4000) 0x1000, ()) [.allocate 0x1000]
    (fun st => decide (¬ st.1.Overruns 0x2000)) (by decide +kernel)
  simp only [decide_eq_true_eq] at hnoticed
  refine ⟨a, hrun.of_checked, (inRegion_iff_of_run (by decide) hrun.of_checked 0x2000).mpr ?_⟩
  refine ⟨fun h => absurd h hnoticed, ?_⟩
  intro h
  simp [mapResult, forEach_succeeds] at h

-- A stack that is larger than the region by its guard.
theorem inRegion_largeStack_false
    : ¬ InRegion succeeds (new (0x10000, 0x1000) 0x1000) 0x2000 () := by
  rintro ⟨hinside, _⟩
  have hok : ((new (0x10000, 0x1000) 0x1000).allocate succeeds 0x2000 ()).1 = .ok 0x12000 := by
    rfl
  have htop := (hinside 0x12000 hok).2
  revert htop
  decide

end StackAllocator

end Jrinx
