import Jrinx.Driver.ProbeAll

/-!
This module contains what the heap is enlarged with while the devices are probed: the memory of the device tree
without the one up to the end of the kernel.
-/

namespace Jrinx

variable {arch : Arch}

namespace ExclusiveIntervals

variable {w : Nat} {out : List Bound} {x : Nat}

theorem covering_append (bs bs' : List Bound) (x : Nat)
    : covering (bs ++ bs') x = covering bs x + covering bs' x :=
  List.countP_append

theorem covering_singleton (b : Bound) : covering [b] x = if b.Contains x then 1 else 0 := by
  simp [covering, List.countP_cons]

theorem covering_le_one (h : out.Pairwise (fun b b' => b.start + b.len < b'.start)) : covering out x ≤ 1 := by
  induction out with
  | nil => exact Nat.zero_le 1
  | cons b out ih =>
    obtain ⟨hfirst, hout⟩ := List.pairwise_cons.mp h
    have hcons : covering (b :: out) x = covering [b] x + covering out x := covering_append [b] out x
    rw [hcons, covering_singleton]
    split
    next hb =>
      have hnone : covering out x = 0 := by
        rw [covering_eq_zero_iff]
        rintro ⟨b', hb', hx⟩
        have hlt := hfirst b' hb'
        rw [Bound.Contains] at hb hx
        omega
      rw [hnone]
    next =>
      rw [Nat.zero_add]
      exact ih hout

theorem hot_covering_iff (hw : 16 ≤ w) (b kernel : Bound)
    : ExclusiveIntervalsIter.hot (BitVec.ofInt w (covering [b] x - 32767 * covering [kernel] x)) = true ↔
        b.Contains x ∧ ¬ kernel.Contains x := by
  have hpow : 2 ^ 15 ≤ 2 ^ (w - 1) := Nat.pow_le_pow_right (by decide) (by omega)
  rw [hot_iff hw (by simp), covering_singleton, covering_singleton]
  by_cases hkernel : kernel.Contains x
  . have hle : (32767 * 1 - if b.Contains x then 1 else 0) % 2 ^ w ≤ 2 ^ (w - 1) :=
      (Nat.mod_le _ _).trans (by omega)
    rw [if_pos hkernel, if_neg (by decide)]
    exact ⟨fun hlt => absurd hle hlt, fun hb => absurd hkernel hb.2⟩
  . rw [if_neg hkernel, if_pos rfl]
    split
    next hb => exact ⟨fun _ => ⟨hb, hkernel⟩, fun _ => Nat.zero_lt_one⟩
    next hb => exact ⟨fun hlt => absurd hlt (Nat.lt_irrefl 0), fun hb' => absurd hb'.1 hb⟩

theorem covering_iterate (hw : 16 ≤ w) (sort : SortUnstable (@byPosAndDelta w)) {b kernel : Bound} (hb : b.fits w)
    (hkernel : kernel.fits w) (h : iterate sort [b] [kernel] = .next out)
    : covering out x = if kernel.Contains x then 0 else covering [b] x := by
  obtain ⟨out', hout, _, hseparated, hcovered⟩ :=
    iterate_spec sort (List.forall_mem_singleton.mpr hb) (List.forall_mem_singleton.mpr hkernel)
  rw [h, Outcome.next.injEq] at hout
  subst hout
  have hle : covering out x ≤ 1 := covering_le_one hseparated
  have hiff : 0 < covering out x ↔ b.Contains x ∧ ¬ kernel.Contains x := by
    rw [covering_pos_iff, hcovered, hot_covering_iff hw]
  rw [covering_singleton]
  split
  next hk =>
    have hzero : ¬ 0 < covering out x := fun hpos => (hiff.mp hpos).2 hk
    omega
  next hk =>
    split
    next hbx =>
      have hpos := hiff.mpr ⟨hbx, hk⟩
      omega
    next hbx =>
      have hzero : ¬ 0 < covering out x := fun hpos => hbx (hiff.mp hpos).1
      omega

end ExclusiveIntervals

open ExclusiveIntervals

def MemoryRegion.bound (arch : Arch) (region : MemoryRegion) : Option Bound :=
  region.size.map (regionBound arch region.startingAddress)

variable {sort : SortUnstable (@ExclusiveIntervals.byPosAndDelta arch.bits)} {kernelEnd : VirtAddr arch}

theorem covering_heapRegions {regions : List MemoryRegion} {bounds : List Bound}
    (hfits : ∀ b ∈ regions.filterMap (·.bound arch), b.fits arch.bits)
    (hkernel : (kernelBound kernelEnd).fits arch.bits) (h : heapRegions sort kernelEnd regions = .next bounds)
    (x : Nat)
    : covering bounds x =
        if (kernelBound kernelEnd).Contains x then 0 else covering (regions.filterMap (·.bound arch)) x := by
  have hw : 16 ≤ arch.bits := by
    cases arch <;> decide
  induction regions generalizing bounds with
  | nil =>
    rw [heapRegions, Outcome.next.injEq] at h
    subst h
    simp [covering]
  | cons region regions ih =>
    rw [heapRegions] at h
    split at h
    next hsize =>
      have hbound : region.bound arch = none := by
        rw [MemoryRegion.bound, hsize, Option.map_none]
      rw [List.filterMap_cons_none hbound] at hfits ⊢
      exact ih hfits h
    next size hsize =>
      have hbound : region.bound arch = some (regionBound arch region.startingAddress size) := by
        rw [MemoryRegion.bound, hsize, Option.map_some]
      rw [List.filterMap_cons_some hbound] at hfits ⊢
      split at h
      next first hfirst =>
        obtain ⟨rest, hrest, rfl⟩ := Outcome.map_eq_next h
        rw [covering_append, covering_iterate hw sort (hfits _ List.mem_cons_self) hkernel hfirst,
          ih (fun b hb => hfits b (List.mem_cons_of_mem _ hb)) hrest]
        split
        next => rfl
        next => exact (covering_append [_] _ x).symm
      next => simp at h
      next => simp at h

def FdtNode.memory (arch : Arch) (node : FdtNode) : List Bound := (node.reg.getD []).filterMap (·.bound arch)

open DevProber

section

variable {s s' : DevState arch} {as : List (DevProber × FdtNode)} {a : DevProber × FdtNode}
  {probers : List DevProber} {nodes : List FdtNode}

theorem DevState.Probes.covering_heap (h : Probes sort kernelEnd s a s')
    (hkernel : (kernelBound kernelEnd).fits arch.bits)
    (hfits : a.1 = .memory → ∀ b ∈ a.2.memory arch, b.fits arch.bits) (x : Nat)
    : covering s'.heap x = covering s.heap x +
        if a.1 = .memory ∧ ¬ (kernelBound kernelEnd).Contains x then covering (a.2.memory arch) x else 0 := by
  cases h with
  | memory hreg hbounds =>
    rename_i node regions bounds
    have hmemory : node.memory arch = regions.filterMap (·.bound arch) := by
      rw [FdtNode.memory, hreg, Option.getD_some]
    have hcovering := covering_heapRegions (by simpa [hmemory] using hfits rfl) hkernel hbounds x
    rw [covering_append, hcovering]
    simp only [hmemory, true_and, ite_not]
  | intc | plic | ns16550a | virtioMmio | virtioNet => simp [registered]

theorem DevState.covering_heap_of_exec (hkernel : (kernelBound kernelEnd).fits arch.bits)
    (hfits : ∀ a ∈ as, a.1 = .memory → ∀ b ∈ a.2.memory arch, b.fits arch.bits)
    (hexec : exec (DevState.probe sort kernelEnd) s as = .next s') (x : Nat)
    : covering s'.heap x = covering s.heap x +
        if (kernelBound kernelEnd).Contains x then 0
        else covering ((as.filter (fun a => a.1 = .memory)).flatMap (·.2.memory arch)) x := by
  induction hexec using exec_induction with
  | nil => simp [covering]
  | @cons _ _ a as hprobe _ ih =>
    have hfirst := (probe_iff.mp hprobe).covering_heap hkernel (hfits a List.mem_cons_self) x
    rw [ih (fun b hb => hfits b (List.mem_cons_of_mem a hb)), hfirst]
    by_cases ha : a.1 = .memory
    . simp only [ha, List.filter_cons, decide_true, if_true, List.flatMap_cons, covering_append, true_and, ite_not]
      split <;> omega
    . simp only [ha, List.filter_cons, decide_false, if_false, Bool.false_eq_true, false_and, Nat.add_zero]

/--
The heap gets each address of the memory in the tree as often as the tree describes it, and none of those up to the
end of the kernel.
-/
theorem heap_of_probeAllDevice (hnodup : probers.Nodup) (hkernel : (kernelBound kernelEnd).fits arch.bits)
    (hfits : ∀ node ∈ nodes, DevProber.memory.matches node = true → ∀ b ∈ node.memory arch, b.fits arch.bits)
    (hprobe : probeAllDevice sort kernelEnd probers nodes s = .next s') (x : Nat)
    : covering s'.heap x = covering s.heap x +
        if (kernelBound kernelEnd).Contains x then 0
        else covering ((nodes.filter DevProber.memory.matches).flatMap (·.memory arch)) x := by
  obtain ⟨rest, hperm, _, hexec⟩ := (probeAllDevice_iff sort kernelEnd).mp hprobe
  have hfits' : ∀ a ∈ pairs (.intc :: .plic :: .memory :: rest) nodes, a.1 = .memory →
      ∀ b ∈ a.2.memory arch, b.fits arch.bits := by
    intro a ha hmemory
    obtain ⟨_, hnode, hmatches⟩ := mem_pairs.mp ha
    exact hfits a.2 hnode (hmemory ▸ hmatches)
  rw [DevState.covering_heap_of_exec hkernel hfits' hexec x,
    pairs_filter (hperm.nodup_iff.mpr hnodup) (by simp), List.flatMap_map]

end

-- The last page of the kernel, and the first one behind it.
theorem heap_of_probeAllDevice_virtTree
    : ∃ s', probeAllDevice (SortUnstable.insertionSort _) VirtTree.kernelEnd VirtTree.probers VirtTree.nodes
        VirtTree.start = .next s' ∧
        covering s'.heap (PhysAddr.toVirt (0x803FF000 : PhysAddr .riscv64)).toNat = 0 ∧
        covering s'.heap (PhysAddr.toVirt (0x80400000 : PhysAddr .riscv64)).toNat = 1 := by
  obtain ⟨s', hprobe⟩ := VirtTree.exists_probed
  have hheap := heap_of_probeAllDevice (by decide) (by decide) (by decide) hprobe
  exact ⟨s', hprobe, (hheap _).trans (by decide), (hheap _).trans (by decide)⟩

end Jrinx
