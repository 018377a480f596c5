import Jrinx.Driver.MaskAll
import Jrinx.Driver.ProbeAll

/-!
This module contains which registers of the devices can be accessed when the devices have been probed: those on
the pages that the probes have mapped, each of them at its own address. For an interrupt controller these are all
that its probe and the later calls for the same contexts access.
-/

namespace Jrinx

variable {arch : Arch}

open DevProber

inductive PlicInner.Accesses (inner : PlicInner arch) (maxId : Nat) : Mmio arch → Prop where
  | setPriority {irqNum : Nat} (hirq : Plic.isValid irqNum)
    : Accesses inner maxId (inner.priorityBase.add irqNum)
  | enable {contextId irqNum : Nat} (hcontext : contextId ≤ maxId) (hirq : Plic.isValid irqNum)
    : Accesses inner maxId (inner.enableReg contextId irqNum)
  | disableAll {contextId i : Nat} (hcontext : contextId ≤ maxId) (hi : i < 128)
    : Accesses inner maxId (inner.enableBase.add (contextId * plicEnableContextOffset + i * 4))
  | setThreshold {contextId : Nat} (hcontext : contextId ≤ maxId)
    : Accesses inner maxId (inner.thresholdReg contextId)

theorem PlicInner.init_of_not_accesses {inner : PlicInner arch} {maxId : Nat} {addr : VirtAddr arch}
    (h : ∀ m, inner.Accesses maxId m → m.addr ≠ addr) (regs : PlicRegs arch)
    : inner.init regs maxId addr = regs addr := by
  apply foldl_eq (o := fun regs : PlicRegs arch => regs addr)
  intro i hi regs
  have hcontext : i ≤ maxId := Nat.lt_succ_iff.mp (List.mem_range.mp hi)
  rw [setThreshold, PlicRegs.write, Function.update_of_ne (h _ (.setThreshold hcontext)).symm]
  apply foldl_eq (o := fun regs : PlicRegs arch => regs addr)
  intro j hj regs
  exact Function.update_of_ne (h _ (.disableAll hcontext (List.mem_range.mp hj))).symm _ _

theorem contextMaxId_eq_some {size maxId : Nat} (h : DevState.contextMaxId size = some maxId)
    : size / pageSize = maxId + 513 := by
  rw [DevState.contextMaxId] at h
  split at h
  next hle =>
    obtain rfl := Option.some.inj h
    rw [pageSize]
    omega
  next => simp at h

theorem PlicInner.Accesses.offset {inner : PlicInner arch} {base : VirtAddr arch} {maxId : Nat} {m : Mmio arch}
    (h : inner.Accesses maxId m) (hnew : PlicInner.new base = some inner)
    : ∃ offset ≤ (maxId + 512) * pageSize, m.addr = regAt base offset := by
  cases h with
  | setPriority hirq =>
    refine ⟨_, ?_, addr_priorityReg hnew _⟩
    obtain ⟨_, hlt⟩ := hirq
    simp only [PlicOffset.priority, pageSize, Plic.irqRange] at *
    omega
  | enable hcontext hirq =>
    refine ⟨_, ?_, addr_enableReg hnew _ _⟩
    obtain ⟨_, hlt⟩ := hirq
    simp only [PlicOffset.enable, pageSize, Plic.irqRange] at *
    omega
  | disableAll hcontext hi =>
    refine ⟨_, ?_, addr_disabled hnew _ _⟩
    simp only [PlicOffset.disabled, pageSize]
    omega
  | setThreshold hcontext =>
    refine ⟨_, ?_, addr_thresholdReg hnew _⟩
    simp only [PlicOffset.threshold, pageSize]
    omega

section

variable {s s' : DevState arch} {sort : SortUnstable (@ExclusiveIntervals.byPosAndDelta arch.bits)}
  {kernelEnd : VirtAddr arch} {root : PhysFrame arch} {mem : Memory arch} {heap : List (PhysFrame arch)}

/--
Whatever the order of the probers and of the nodes is: in the end the virtual addresses of the devices lead to the
devices as far as their pages have been mapped, and no others do.
-/
theorem translates_of_probeAllDevice {probers : List DevProber} {nodes : List FdtNode}
    (hpages : (root :: heap).Nodup) (hmem : ∀ page ∈ heap, page.addr.InMem)
    (hstart : s.bootTable = (BootPageTable.zeroed root mem heap).init)
    (hlt : ∀ a ∈ pairs probers nodes, ∀ addr ∈ a.1.addrs a.2, addr < arch.physMemBase)
    (hprobe : probeAllDevice sort kernelEnd probers nodes s = .next s')
    : DevState.Translates (pairs probers nodes) s s' := by
  obtain ⟨rest, hperm, _, hexec⟩ := (probeAllDevice_iff sort kernelEnd).mp hprobe
  have htranslates := DevState.translates_of_exec hpages hmem hstart
    (fun a ha => hlt a ((mem_pairs_perm hperm).mp ha)) hexec
  exact htranslates.congr fun _ => mem_pairs_perm hperm

/--
After the probe of an interrupt controller, and while others are probed, each register that is accessed for one of
its contexts is there, at its own address. Its probe writes to no other, and it has found out which contexts these
are: the register of the threshold is on the pages of the controller for no other.
-/
theorem plicRegisters_of_exec {as : List (DevProber × FdtNode)} (hpages : (root :: heap).Nodup)
    (hmem : ∀ page ∈ heap, page.addr.InMem) (hstart : s.bootTable = (BootPageTable.zeroed root mem heap).init)
    (hlt : ∀ a ∈ as, ∀ addr ∈ a.1.addrs a.2, addr < arch.physMemBase)
    (hexec : exec (DevState.probe sort kernelEnd) s as = .next s') {node : FdtNode}
    {startingAddress size maxId : Nat} {inner : PlicInner arch} (hplic : (.plic, node) ∈ as)
    (hregion : node.region = some (startingAddress, size)) (hmax : DevState.contextMaxId size = some maxId)
    (hnew : PlicInner.new (deviceAddr arch startingAddress) = some inner)
    : (∀ m, inner.Accesses maxId m →
        ∃ offset, offset + 4 ≤ size ∧ m.addr = regAt (deviceAddr arch startingAddress) offset ∧
          s'.bootTable.translate m.addr = some (startingAddress + offset)) ∧
      (∀ regs addr, (∀ m, inner.Accesses maxId m → m.addr ≠ addr) → inner.init regs maxId addr = regs addr) ∧
      ∀ contextId, DevProber.plic.Window node (startingAddress + PlicOffset.threshold contextId) ↔
        contextId ≤ maxId := by
  have htranslates := DevState.translates_of_exec hpages hmem hstart hlt hexec
  have hsize := contextMaxId_eq_some hmax
  simp only [pageSize] at hsize
  refine ⟨?_, fun regs addr h => PlicInner.init_of_not_accesses h regs, ?_⟩
  . intro m haccess
    obtain ⟨offset, hle, haddr⟩ := haccess.offset hnew
    simp only [pageSize] at hle
    have hwindow : DevProber.plic.Window node (startingAddress + offset) := by
      rw [plic_window_iff hregion]
      simp only [pageSize]
      omega
    refine ⟨offset, by omega, haddr, ?_⟩
    rw [haddr, regAt_deviceAddr, htranslates.device _ (window_lt (hlt _ hplic) hwindow)]
    exact ⟨rfl, _, hplic, hwindow⟩
  . intro contextId
    rw [plic_window_iff hregion]
    simp only [PlicOffset.threshold, pageSize]
    omega

end

-- The line status register of the serial port, and an address without a device.
theorem translates_of_probeAllDevice_virtTree
    : ∃ s', probeAllDevice (SortUnstable.insertionSort _) VirtTree.kernelEnd VirtTree.probers VirtTree.nodes
        VirtTree.start = .next s' ∧
        s'.bootTable.translate (deviceAddr .riscv64 0x10000005) = some 0x10000005 ∧
        s'.bootTable.translate (deviceAddr .riscv64 0x20000000) = none := by
  obtain ⟨s', hprobe⟩ := VirtTree.exists_probed
  have h := translates_of_probeAllDevice VirtTree.nodup_pages VirtTree.inMem_heap rfl
    VirtTree.addrs_lt_physMemBase hprobe
  refine ⟨s', hprobe, ?_, ?_⟩
  . rw [h.device _ (by decide)]
    exact ⟨rfl, (.ns16550a, VirtTree.serial), by decide, 0x10000000, by decide, by decide⟩
  . rw [Option.eq_none_iff_forall_ne_some]
    intro y htranslate
    obtain ⟨_, a, ha, addr, haddr, hdiv⟩ := (h.device _ (by decide) y).mp htranslate
    have hlt := VirtTree.addrs_lt a ha addr haddr
    simp only [pageSize] at hdiv
    omega

-- The registers of the first 1024 contexts.
theorem plicRegisters_of_exec_virtTree
    : ∃ s' inner, probeAllDevice (SortUnstable.insertionSort _) VirtTree.kernelEnd VirtTree.probers VirtTree.nodes
        VirtTree.start = .next s' ∧ PlicInner.new (deviceAddr .riscv64 0xc000000) = some inner ∧
        ∀ m, inner.Accesses 1023 m →
          ∃ offset, offset + 4 ≤ 0x600000 ∧ m.addr = regAt (deviceAddr .riscv64 0xc000000) offset ∧
            s'.bootTable.translate m.addr = some (0xc000000 + offset) := by
  obtain ⟨s', hprobe⟩ := VirtTree.exists_probed
  obtain ⟨rest, hperm, _, hexec⟩ := (probeAllDevice_iff _ _).mp hprobe
  obtain ⟨inner, hnew⟩ := PlicInner.exists_new_iff.mpr (show 0xc000000 % 4 = 0 from rfl)
  have hplic : (.plic, VirtTree.plic) ∈ pairs (.intc :: .plic :: .memory :: rest) VirtTree.nodes :=
    (mem_pairs_perm hperm).mpr (by decide)
  have hregisters := plicRegisters_of_exec VirtTree.nodup_pages VirtTree.inMem_heap rfl
    (fun a ha => VirtTree.addrs_lt_physMemBase a ((mem_pairs_perm hperm).mp ha)) hexec hplic rfl rfl hnew
  exact ⟨s', inner, hprobe, hnew, hregisters.1⟩

end Jrinx
