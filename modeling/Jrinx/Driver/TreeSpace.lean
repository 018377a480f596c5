import Jrinx.Driver.Windows

/-!
This module connects the device tree with the address space of the kernel: `KERN_PAGE_TABLE` is created from the
boot page table that the probing of the devices has left behind.
-/

namespace Jrinx

open Std

variable {arch : Arch}

namespace DevProber

def device (prober : DevProber) (node : FdtNode) : Option Device :=
  match prober, node.region with
  | .plic, some (startingAddress, size) => some ⟨.plic, ⟨startingAddress, some size⟩⟩
  | .ns16550a, some (startingAddress, size) => some ⟨.ns16550a, ⟨startingAddress, some size⟩⟩
  | .virtioMmio, some (startingAddress, size) => some ⟨.virtioMmio, ⟨startingAddress, some size⟩⟩
  | _, _ => none

def devices (as : List (DevProber × FdtNode)) : List Device := as.filterMap fun a => a.1.device a.2

theorem mem_devices {as : List (DevProber × FdtNode)} {d : Device}
    : d ∈ devices as ↔ ∃ a ∈ as, a.1.device a.2 = some d := List.mem_filterMap

end DevProber

open DevProber

namespace DevState

variable {s s' : DevState arch} {sort : SortUnstable (@ExclusiveIntervals.byPosAndDelta arch.bits)}
  {kernelEnd : VirtAddr arch} {as : List (DevProber × FdtNode)} {a : DevProber × FdtNode}

theorem Probes.device_cases (h : Probes sort kernelEnd s a s')
    : (a.1.device a.2 = none ∧ s'.bootTable = s.bootTable) ∨
        ∃ d, a.1.device a.2 = some d ∧ s.bootTable.probe d = .next s'.bootTable := by
  have hmaps := h.maps
  cases h with
  | intc | memory => exact Or.inl ⟨rfl, rfl⟩
  | plic hregion | ns16550a hregion | virtioMmio hregion | virtioNet hregion =>
    simp only [DevProber.addrs, hregion] at hmaps
    refine Or.inr ⟨_, by simp only [device, hregion]; rfl, ?_⟩
    exact hmaps

theorem probeAll_of_exec (hexec : exec (DevState.probe sort kernelEnd) s as = .next s')
    : s.bootTable.probeAll (devices as) = .next s'.bootTable := by
  induction hexec using exec_induction with
  | nil => rfl
  | @cons _ _ a as hprobe _ ih =>
    obtain ⟨hnone, hsame⟩ | ⟨d, hsome, hd⟩ := (probe_iff.mp hprobe).device_cases
    . have hdevices : devices (a :: as) = devices as := List.filterMap_cons_none hnone
      rw [hdevices, ← hsame]
      exact ih
    . have hdevices : devices (a :: as) = d :: devices as := List.filterMap_cons_some hsome
      rw [hdevices, BootPageTable.probeAll, hd]
      exact ih

end DevState

theorem KernSpace.Reaches.mono {devices devices' : List Device} {s : KernSpace arch} {addr : VirtAddr arch}
    {pa : Nat} (h : Reaches devices s addr pa) (hsub : ∀ d ∈ devices, d ∈ devices')
    : Reaches devices' s addr pa := by
  cases h with
  | direct hp hvirt => exact .direct hp hvirt
  | device hd hphys hpage hupper => exact .device (hsub _ hd) hphys hpage hupper
  | stack hx hpage hframe => exact .stack hx hpage hframe

section

variable {s s' : DevState arch} {sort : SortUnstable (@ExclusiveIntervals.byPosAndDelta arch.bits)}
  {kernelEnd : VirtAddr arch} {root frame : PhysFrame arch} {mem : Memory arch} {heap : List (PhysFrame arch)}
  {probers : List DevProber} {nodes : List FdtNode}

/--
The kernel starts with the address space that the device tree describes: in every run of the allocator of the
stacks, the hardware translates an address exactly if it is in the direct map, in a page that the probe of some
node has mapped in the upper half, or in a page of a stack that has a frame.
-/
theorem translate_iff_of_probeAllDevice (hpages : (root :: heap).Nodup)
    (hmem : ∀ f ∈ root :: heap, f.addr.InMem) (hstart : s.bootTable = (BootPageTable.zeroed root mem heap).init)
    (hprobe : probeAllDevice sort kernelEnd probers nodes s = .next s')
    (hbelow : ∀ d ∈ devices (pairs probers nodes), d.region.BelowMemory arch)
    (hclear : ∀ d ∈ devices (pairs probers nodes), ∀ addr ∈ d.addrs, Device.ClearOfStacks arch addr)
    {k k₁ : KernSpace arch} (hframe : frame ∉ root :: heap) (hframeMem : frame.addr.InMem)
    (hnew : PageTable.new s'.bootTable.mem s'.bootTable.entries [frame] = .ok k.table)
    (hboot : k.bootPages = root :: heap) {a : StackAllocator} {calls : List StackCall}
    (hrun : Run (StackAllocator.step KernSpace.callbacks) (StackAllocator.uniform executorStackSize)
      (executorStackAllocator arch, k) calls (a, k₁))
    (addr : VirtAddr arch) (pa : Nat)
    : Mmu.translate k₁.table.mem k₁.table.root addr = some pa ↔
        KernSpace.Reaches (devices (pairs probers nodes)) k₁ addr pa := by
  obtain ⟨rest, hperm, _, hexec⟩ := (probeAllDevice_iff sort kernelEnd).mp hprobe
  have hsame (d : Device)
      : d ∈ devices (pairs (.intc :: .plic :: .memory :: rest) nodes) ↔ d ∈ devices (pairs probers nodes) := by
    simp only [mem_devices, mem_pairs_perm hperm]
  have hall := DevState.probeAll_of_exec hexec
  rw [hstart] at hall
  have hboots : k.Boots (devices (pairs (.intc :: .plic :: .memory :: rest) nodes)) :=
    ⟨root, mem, heap, s'.bootTable, frame, hpages, hall, hframe, hframeMem, hnew, hboot⟩
  have hbelow' (d) (hd : d ∈ devices (pairs (.intc :: .plic :: .memory :: rest) nodes)) :=
    hbelow d ((hsame d).mp hd)
  have hclear' (d) (hd : d ∈ devices (pairs (.intc :: .plic :: .memory :: rest) nodes)) :=
    hclear d ((hsame d).mp hd)
  have hmem' : ∀ f ∈ k.bootPages, f.addr.InMem := by
    rw [hboot]
    exact hmem
  constructor
  . intro htranslate
    have hreaches := hboots.reaches hbelow' hclear' hmem' hrun htranslate
    exact hreaches.mono fun d => (hsame d).mp
  . intro hreaches
    exact (hreaches.mono fun d => (hsame d).mpr).translate hboots hbelow' hclear' hmem' hrun

end

namespace VirtTree

theorem devices_eq
    : devices (pairs probers nodes) =
        [⟨.ns16550a, ⟨0x10000000, some 0x100⟩⟩, ⟨.virtioMmio, ⟨0x10008000, some 0x1000⟩⟩,
          ⟨.plic, ⟨0xc000000, some 0x600000⟩⟩] := by
  rw [pairs_eq]
  rfl

theorem clearOfStacks
    : ∀ d ∈ devices (pairs probers nodes), ∀ addr ∈ d.addrs, Device.ClearOfStacks .riscv64 addr := by
  have hplic : ∀ addr ∈ Driver.plic.addrs 0xc000000 0x600000, Device.ClearOfStacks .riscv64 addr := by
    intro addr haddr
    obtain ⟨i, _, rfl⟩ := List.mem_map.mp haddr
    have hle : 0x400000 ≤ 0xc000000 + i * 4096 := by omega
    exact hle
  rw [devices_eq]
  simp only [List.forall_mem_cons]
  exact ⟨by decide, by decide, hplic, by simp⟩

-- The root of `KERN_PAGE_TABLE`.
def frame : PhysFrame .riscv64 := PageTable.frameAt .riscv64 0x80300000

theorem frame_notMem : frame ∉ root :: heap := by
  have hframe : frame.addr.toNat = 0x80300000 := by decide
  rw [List.mem_cons, not_or]
  constructor
  . decide
  . intro hmem
    obtain ⟨i, hi, heq⟩ := List.mem_map.mp hmem
    have htoNat := toNat_heapFrame (List.mem_range.mp hi)
    rw [heq, hframe] at htoNat
    omega

theorem inMem_pages : ∀ f ∈ root :: heap, f.addr.InMem :=
  List.forall_mem_cons.mpr ⟨by decide, inMem_heap⟩

def space (t : PageTable .riscv64) : KernSpace .riscv64 where
  table := t
  bootPages := root :: heap
  answers := (List.range 1024).map KernSpace.firstAnswer

theorem supplied_space {t : PageTable .riscv64} {b : BootPageTable .riscv64}
    (hnew : PageTable.new b.mem b.entries [frame] = .ok t)
    : (space t).Supplied 1024 := by
  refine KernSpace.supplied_first (s := space t) (by rw [space]) ?_ ?_
  . intro f hf i hi
    rcases List.mem_cons.mp hf with rfl | hf
    . exact KernSpace.ne_firstFrame (by omega) hi
    . obtain ⟨k, hk, rfl⟩ := List.mem_map.mp hf
      have hlt := List.mem_range.mp hk
      exact KernSpace.ne_firstFrame (by omega) hi
  . intro p f hget i hi
    simp only [space, ← Except.ok.inj hnew, ExtTreeMap.getElem?_insert] at hget
    split at hget
    . rw [← Option.some.inj hget]
      exact KernSpace.ne_firstFrame (by omega) hi
    . simp at hget

end VirtTree

-- The line status register of the serial port, when the first stack has been created.
theorem translate_iff_of_probeAllDevice_virtTree
    : ∃ s' t a k, probeAllDevice (SortUnstable.insertionSort _) VirtTree.kernelEnd VirtTree.probers VirtTree.nodes
        VirtTree.start = .next s' ∧
        PageTable.new s'.bootTable.mem s'.bootTable.entries [VirtTree.frame] = .ok t ∧
        (executorStackAllocator .riscv64).allocate KernSpace.callbacks executorStackSize (VirtTree.space t) =
          (.ok 0xFFFFFFE000400000, a, k) ∧
        Mmu.translate k.table.mem k.table.root 0xFFFFFFFF10000005 = some 0x10000005 := by
  obtain ⟨s', hprobe⟩ := VirtTree.exists_probed
  obtain ⟨t, hnew⟩ : ∃ t, PageTable.new s'.bootTable.mem s'.bootTable.entries [VirtTree.frame] = .ok t := ⟨_, rfl⟩
  obtain ⟨a, k, hallocate⟩ := KernSpace.allocate_first (VirtTree.supplied_space hnew)
  have hserial : ⟨.ns16550a, ⟨0x10000000, some 0x100⟩⟩ ∈ devices (pairs VirtTree.probers VirtTree.nodes) := by
    rw [VirtTree.devices_eq]
    exact List.mem_cons_self
  have hbelow : ∀ d ∈ devices (pairs VirtTree.probers VirtTree.nodes), d.region.BelowMemory .riscv64 := by
    rw [VirtTree.devices_eq]
    decide
  have hreaches : KernSpace.Reaches (devices (pairs VirtTree.probers VirtTree.nodes)) k 0xFFFFFFFF10000005
      0x10000005 :=
    .device hserial List.mem_cons_self (by decide) (by decide)
  refine ⟨s', t, a, k, hprobe, hnew, hallocate, ?_⟩
  exact (translate_iff_of_probeAllDevice (k := VirtTree.space t) VirtTree.nodup_pages VirtTree.inMem_pages rfl hprobe
    hbelow VirtTree.clearOfStacks VirtTree.frame_notMem (by decide) hnew rfl (KernSpace.run_firstStack hallocate)
    _ _).mpr hreaches

end Jrinx
