import Mathlib.Tactic
import Jrinx.StackAlloc.Trace

/-!
This module contains that the stacks of the allocator never overlap and that exactly the pages of the
allocated ones are mapped.
-/

namespace Jrinx

open Std

universe u

variable {σ : Type u}

namespace StackAllocator

variable {a : StackAllocator} {b b' : Block}

section Calls

variable {cb : Callbacks σ} {log : List CallbackCall} {s : σ} {size : Nat}

theorem nextMultipleOf_pos (h : 0 < size) : 0 < nextMultipleOf size pageSize := by
  simp only [nextMultipleOf, pageSize]
  omega

theorem nextMultipleOf_mod (n : Nat) : nextMultipleOf n pageSize % pageSize = 0 := by
  simp [nextMultipleOf]

def Invariant (s : StackAllocator × σ × List CallbackCall) : Prop := s.1.Layout ∧ Trace s.1 s.2.2

theorem mapStack_snd (cb : Callbacks σ) (a : StackAllocator) (b : Block) (s : σ)
    : (allocate.mapStack cb a b.base b.size s).2
        =
      (a.insertAllocated b, (StackAllocator.forEach cb.map (b.pages a.guardSize) s).2) := by
  rw [allocate.mapStack, Block.pages]
  split
  next heq => simp [heq, insertAllocated, Block.top]
  next heq => simp [heq, insertAllocated, Block.top]

theorem mapStack_ok {top : Nat} {cb : Callbacks σ} {s : σ}
    (h : (allocate.mapStack cb a b.base b.size s).1 = .ok top)
    : top = b.top a.guardSize := by
  rw [allocate.mapStack] at h
  split at h
  next => simpa [Block.top] using h.symm
  next => simp at h

theorem allocate_spec (ha : a.Layout) (htrace : Trace a log) (hsize : 0 < size)
    : Invariant (a.allocate cb.traced size (s, log)).2 ∧
        ∀ top, (a.allocate cb.traced size (s, log)).1 = .ok top → top ∉ a.allocated := by
  have hpos := nextMultipleOf_pos hsize
  have hmod := nextMultipleOf_mod size
  rw [allocate]
  generalize nextMultipleOf size pageSize = size at hpos hmod
  -- both ways end with the pages of a block that has been taken
  have htaken {a' : StackAllocator} {b : Block} (h : Takes a (a'.insertAllocated b) b)
      : Invariant (allocate.mapStack cb.traced a' b.base b.size (s, log)).2 ∧
          ∀ top, (allocate.mapStack cb.traced a' b.base b.size (s, log)).1 = .ok top →
            top ∉ a.allocated := by
    have hguard : a'.guardSize = a.guardSize := h.guard
    constructor
    . rw [mapStack_snd, hguard]
      exact ⟨h.layout, h.trace htrace s⟩
    . intro top htop hmem
      rw [mapStack_ok htop, hguard] at hmem
      obtain ⟨size', hsize'⟩ := Option.isSome_iff_exists.mp
        (ExtTreeMap.isSome_getElem?_iff_mem.mpr hmem)
      have hle := ha.top_le _ _ hsize'
      apply h.free ⟨b.top a.guardSize - size' - a.guardSize, size'⟩
      . rw [Allocated]
        convert hsize' using 2
        simp only [Block.top] at *
        omega
      . simp only [Block.top] at *
        omega
  split
  next va rest hcached => exact htaken (b := ⟨va, size⟩) (ha.reuse hcached)
  next hcached =>
    have hmoves := ha.insertCached_nil hcached
    dsimp only
    split
    next =>
      refine ⟨⟨hmoves.layout, htrace.of_moves hmoves (fun _ => Iff.rfl)⟩, ?_⟩
      intro top htop
      simp at htop
    next =>
      apply htaken (b := ⟨a.next, size⟩)
      exact hmoves.takes rfl (fun _ => Iff.rfl)
        (hmoves.layout.carve (b := ⟨a.next, size⟩) rfl hpos hmod)

theorem Layout.allocated_of_getElem? (h : a.Layout) {top : Nat} (htop : a.allocated[top]? = some size)
    : ∃ b, a.Allocated b ∧ b.size = size ∧ b.top a.guardSize = top ∧ b.base = top - size - a.guardSize := by
  have hle := h.top_le top size htop
  have heq : Block.top a.guardSize ⟨top - size - a.guardSize, size⟩ = top := by
    simp only [Block.top]
    omega
  exact ⟨⟨top - size - a.guardSize, size⟩, by rwa [Allocated, heq], rfl, heq, rfl⟩

theorem deallocate_spec (ha : a.Layout) (htrace : Trace a log) (top : Nat)
    : Invariant (a.deallocate cb.traced top (s, log)).2 := by
  rw [deallocate]
  split
  next => exact ⟨ha, htrace⟩
  next size htop =>
    obtain ⟨b, hb, rfl, rfl, hbase⟩ := ha.allocated_of_getElem? htop
    have hrelease := ha.release hb
    have hrecycle := ha.recycle hb
    have htrace' := hrelease.trace (f := cb.unmap) ha hb htrace s
    have htrace'' := hrecycle.trace (f := cb.unmap) ha hb htrace s
    dsimp only
    rw [← hbase]
    split
    next heq =>
      refine ⟨hrecycle.layout, ?_⟩
      rw [Block.pages, show traced cb.unmap true = cb.traced.unmap from rfl, heq] at htrace''
      exact htrace''
    next heq =>
      refine ⟨hrelease.layout, ?_⟩
      rw [Block.pages, show traced cb.unmap true = cb.traced.unmap from rfl, heq] at htrace'
      exact htrace'

theorem invariant_new {w : Nat} {region : Nat × Nat} {guardSize : Nat} (s : σ)
    (hfits : new.fits w region guardSize = true) (hguard : 0 < guardSize)
    : Invariant (new region guardSize, s, []) := by
  have hnone (b : Block) : ¬ (new region guardSize).HasBlock b := by
    rintro (hb | hb)
    . simp [Allocated, new] at hb
    . simp [Cached, new] at hb
  constructor
  . constructor
    case guard_pos => exact nextMultipleOf_pos hguard
    case guard_mod => exact nextMultipleOf_mod guardSize
    case next_mod =>
      have hmod := nextMultipleOf_mod guardSize
      simp only [new.fits, Bool.and_eq_true, decide_eq_true_eq] at hfits
      simp only [new, pageSize] at *
      omega
    case top_le => simp [new]
    case size_pos => exact fun b hb => absurd hb (hnone b)
    case size_mod => exact fun b hb => absurd hb (hnone b)
    case base_mod => exact fun b hb => absurd hb (hnone b)
    case top_le_next => exact fun b hb => absurd hb (hnone b)
    case apart => exact fun b _ _ hb => absurd hb (hnone b)
    case exclusive => exact fun b hb => absurd (.inl hb) (hnone b)
    case nodup => simp [new]
  . constructor
    case stackPage => simp
    case proper => trivial
    case mapped =>
      intro _ addr
      constructor
      . intro h
        simp [replay, Pages.empty] at h
      . rintro ⟨b, hb, _⟩
        exact absurd (.inl hb) (hnone b)

theorem invariant_step {w : Nat} {call : StackCall} {st st' : StackAllocator × σ × List CallbackCall}
    (hinv : Invariant st) (hallowed : allowed w st call) (h : step cb.traced st call = .next st')
    : Invariant st' := by
  cases call with
  | allocate size =>
    obtain rfl : (st.1.allocate cb.traced size st.2).2 = st' := by simpa [step] using h
    exact (allocate_spec hinv.1 hinv.2 hallowed.1).1
  | deallocate top =>
    obtain rfl : (st.1.deallocate cb.traced top st.2).2 = st' := by simpa [step] using h
    exact deallocate_spec hinv.1 hinv.2 top

end Calls

section Sound

variable {log : List CallbackCall}

def blocks (a : StackAllocator) : List Block :=
  a.allocated.toList.map (fun e => { base := e.1 - e.2 - a.guardSize, size := e.2 }) ++
    a.cached.toList.flatMap (fun e => e.2.map (fun va => { base := va, size := e.1 }))

/--
What is promised about the allocator: the allocated and the cached blocks do not overlap, no block is
both, the callbacks are called for pages in the right state and never for one in a guard, different
addresses are different pages and as long as no call fails the mapped pages are those of the allocated
stacks.
-/
structure Sound (a : StackAllocator) (log : List CallbackCall) : Prop where
  disjoint : a.blocks.Pairwise
    (fun b b' => ∀ x, ¬ (b.Contains a.guardSize x ∧ b'.Contains a.guardSize x))
  exclusive : ∀ top size, a.allocated[top]? = some size →
    ∀ size', top - size - a.guardSize ∉ a.cached.getD size' []
  proper : Proper Pages.empty log
  guard : ∀ c ∈ log, ∀ b ∈ a.blocks, ¬ (b.base ≤ c.addr ∧ c.addr < b.base + a.guardSize)
  page : ∀ c ∈ log, c.addr % pageSize = a.region.1 % pageSize
  mapped : AllOk log → ∀ addr, replay Pages.empty log addr = true ↔
    ∃ top size, a.allocated[top]? = some size ∧ addr ∈ pages (top - size) size

theorem Layout.mem_allocated (h : a.Layout) {e : Nat × Nat} (he : e ∈ a.allocated.toList)
    : a.Allocated { base := e.1 - e.2 - a.guardSize, size := e.2 } ∧
        Block.top a.guardSize { base := e.1 - e.2 - a.guardSize, size := e.2 } = e.1 := by
  rw [ExtTreeMap.mem_toList_iff_getElem?_eq_some] at he
  obtain ⟨b, hb, hsize, htop, hbase⟩ := h.allocated_of_getElem? he
  have heq : b = { base := e.1 - e.2 - a.guardSize, size := e.2 } := by
    cases b
    simp_all
  rw [← heq]
  exact ⟨hb, htop⟩

theorem mem_cached {e : Nat × List Nat} (he : e ∈ a.cached.toList) {va : Nat} (hva : va ∈ e.2)
    : a.Cached { base := va, size := e.1 } := by
  rw [ExtTreeMap.mem_toList_iff_getElem?_eq_some] at he
  simpa [Cached, ExtTreeMap.getD_eq_getD_getElem?, he] using hva

theorem Layout.hasBlock_of_mem (h : a.Layout) (hb : b ∈ a.blocks) : a.HasBlock b := by
  rcases List.mem_append.mp hb with hb | hb
  . obtain ⟨e, he, rfl⟩ := List.mem_map.mp hb
    exact .inl (h.mem_allocated he).1
  . obtain ⟨e, he, hb⟩ := List.mem_flatMap.mp hb
    obtain ⟨va, hva, rfl⟩ := List.mem_map.mp hb
    exact .inr (mem_cached he hva)

theorem Layout.disjoint_of_ne (h : a.Layout) (hb : a.HasBlock b) (hb' : a.HasBlock b') (hne : b ≠ b')
    (x : Nat)
    : ¬ (b.Contains a.guardSize x ∧ b'.Contains a.guardSize x) :=
  fun hx => hne (h.apart b b' x hb hb' hx.1 hx.2)

theorem Layout.pairwise_blocks (h : a.Layout)
    : a.blocks.Pairwise
        (fun b b' => ∀ x, ¬ (b.Contains a.guardSize x ∧ b'.Contains a.guardSize x)) := by
  rw [blocks, List.pairwise_append, List.pairwise_map, List.pairwise_flatMap]
  refine ⟨?_, ⟨?_, ?_⟩, ?_⟩
  . apply ExtTreeMap.distinct_keys_toList.imp_of_mem
    intro e e' he he' hkey
    obtain ⟨hb, htop⟩ := h.mem_allocated he
    obtain ⟨hb', htop'⟩ := h.mem_allocated he'
    apply h.disjoint_of_ne (.inl hb) (.inl hb')
    intro heq
    rw [heq, htop'] at htop
    exact hkey (by simp [htop])
  . intro e he
    have hnodup : e.2.Nodup := by
      have hnodup := h.nodup e.1
      rw [ExtTreeMap.mem_toList_iff_getElem?_eq_some] at he
      rwa [ExtTreeMap.getD_eq_getD_getElem?, he] at hnodup
    rw [List.pairwise_map]
    apply hnodup.imp_of_mem
    intro va va' hva hva' hne
    apply h.disjoint_of_ne (.inr (mem_cached he hva)) (.inr (mem_cached he hva'))
    simpa using hne
  . apply ExtTreeMap.distinct_keys_toList.imp_of_mem
    intro e e' he he' hkey b hb b' hb'
    obtain ⟨va, hva, rfl⟩ := List.mem_map.mp hb
    obtain ⟨va', hva', rfl⟩ := List.mem_map.mp hb'
    apply h.disjoint_of_ne (.inr (mem_cached he hva)) (.inr (mem_cached he' hva'))
    intro heq
    simp only [Block.mk.injEq] at heq
    exact hkey (by simp [heq.2])
  . intro b hb b' hb'
    obtain ⟨e, he, rfl⟩ := List.mem_map.mp hb
    obtain ⟨e', he', hb'⟩ := List.mem_flatMap.mp hb'
    obtain ⟨va, hva, rfl⟩ := List.mem_map.mp hb'
    have halloc := (h.mem_allocated he).1
    have hcached := mem_cached he' hva
    apply h.disjoint_of_ne (.inl halloc) (.inr hcached)
    intro heq
    rw [← heq] at hcached
    exact h.exclusive _ halloc hcached

theorem Layout.contains_base (h : a.Layout) : b.Contains a.guardSize b.base := by
  have hguard := h.guard_pos
  simp only [Block.Contains, Block.top]
  omega

theorem Layout.sound (h : a.Layout) (htrace : Trace a log) : a.Sound log where
  disjoint := h.pairwise_blocks
  exclusive := by
    intro top size htop size' hcached
    obtain ⟨b, hb, rfl, rfl, hbase⟩ := h.allocated_of_getElem? htop
    rw [← hbase] at hcached
    have hb' : a.Cached { base := b.base, size := size' } := hcached
    have heq := h.apart _ _ b.base (.inl hb) (.inr hb') h.contains_base h.contains_base
    rw [← heq] at hb'
    exact h.exclusive b hb hb'
  proper := htrace.proper
  guard := fun c hc b hb => (htrace.stackPage c hc).guard b (h.hasBlock_of_mem hb)
  page := fun c hc => (htrace.stackPage c hc).mod
  mapped := by
    intro hall addr
    rw [htrace.mapped hall addr]
    constructor
    . rintro ⟨b, hb, hpage⟩
      refine ⟨b.top a.guardSize, b.size, hb, ?_⟩
      rwa [Block.pages, show b.base + a.guardSize = b.top a.guardSize - b.size by
        simp only [Block.top]; omega] at hpage
    . rintro ⟨top, size, htop, hpage⟩
      obtain ⟨b, hb, rfl, rfl, _⟩ := h.allocated_of_getElem? htop
      refine ⟨b, hb, ?_⟩
      rwa [Block.pages, show b.base + a.guardSize = b.top a.guardSize - b.size by
        simp only [Block.top]; omega]

/--
In every run of the allocator, whatever the callbacks do, no two stacks overlap, and an allocation
returns the top of a stack that is not allocated.
-/
theorem sound_of_run {w : Nat} {region : Nat × Nat} {guardSize : Nat} {cb : Callbacks σ} {s s' : σ}
    {calls : List StackCall} (hfits : new.fits w region guardSize = true) (hguard : 0 < guardSize)
    (hrun : Run (step cb.traced) (allowed w) (new region guardSize, s, []) calls (a, s', log))
    : a.Sound log ∧
        ∀ size top, 0 < size → (a.allocate cb.traced size (s', log)).1 = .ok top →
          top ∉ a.allocated := by
  have hinv : Invariant (a, s', log) := by
    apply hrun.invariant Invariant (invariant_new s hfits hguard)
    intro st st' call hinv hallowed hstep
    exact invariant_step hinv hallowed hstep
  refine ⟨hinv.1.sound hinv.2, ?_⟩
  intro size top hsize htop
  exact (allocate_spec hinv.1 hinv.2 hsize).2 top htop

def failsOnce : Callbacks Nat where
  map := fun _ n => (if n = 1 then .error .notEnoughMem else .ok (), n + 1)
  unmap := fun _ n => (.ok (), n)

theorem sound_threeStacks
    : ∃ a s log, Run (step failsOnce.traced) (allowed 64) (new (0x10000, 0x10000) 1, 0, [])
        [.allocate 4096, .allocate 4097, .deallocate 0x11000, .allocate 1] (a, s, log) ∧
          a.Sound log := by
  obtain ⟨⟨a, s, log⟩, hrun, _⟩ := exists_run_of_exec (checked (step failsOnce.traced) (allowed 64))
    (new (0x10000, 0x10000) 1, 0, [])
    [.allocate 4096, .allocate 4097, .deallocate 0x11000, .allocate 1] (fun _ => true)
    (by decide +kernel)
  exact ⟨a, s, log, hrun.of_checked, (sound_of_run (by decide) (by decide) hrun.of_checked).1⟩

end Sound

end StackAllocator

end Jrinx
