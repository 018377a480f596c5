import Jrinx.Multitask.AddressSpace

/-!
This module contains the addresses of buffers that a virtio device gets to see, from `driver/src/bus/virtio.rs`.
They are taken from the virtual ones as if every buffer lay in the direct map. A buffer on the stack of an
executor does not.
-/

namespace Jrinx

variable {arch : Arch}

namespace VirtioHal

-- The same subtraction is done for the pages of `dma_alloc`.
def share (buffer : VirtAddr arch) : PhysAddr arch := buffer - BitVec.ofNat arch.bits arch.remapMemOffset

theorem toVirt_share (buffer : VirtAddr arch) : (share buffer).toVirt = buffer := BitVec.sub_add_cancel _ _

theorem share_toVirt (p : PhysAddr arch) : share p.toVirt = p := BitVec.add_sub_cancel _ _

theorem inMem_share_iff {buffer : VirtAddr arch} : (share buffer).InMem ↔ buffer.InDirectMap := by
  rw [BootPageTable.inDirectMap_iff]
  constructor
  . intro h
    exact ⟨share buffer, h, toVirt_share buffer⟩
  . rintro ⟨p, hp, rfl⟩
    rwa [share_toVirt]

end VirtioHal

namespace KernSpace

open VirtioHal

variable {s s₁ : KernSpace arch} {devices : List Device}

theorem ne_share_of_device {phys : Nat} {addr : VirtAddr arch} (hlt : phys < arch.physMemBase)
    (hpage : alignPageDown addr = devicePage arch phys)
    : phys / pageSize * pageSize + addr.toNat % pageSize ≠ (share addr).toNat := by
  have htoNat := congrArg BitVec.toNat hpage
  have hshare := congrArg BitVec.toNat (toVirt_share addr)
  have hlt' := (share addr).isLt
  rw [toNat_alignPageDown, toNat_devicePage] at htoNat
  rw [PhysAddr.toNat_toVirt] at hshare
  generalize (share addr).toNat = shared at hshare hlt' ⊢
  generalize addr.toNat = virt at htoNat hshare ⊢
  cases arch with
  | riscv32 =>
    have hphys : phys < 0x80000000 := hlt
    have hshared : shared < 2 ^ 32 := hlt'
    have hvirt : virt / 4096 * 4096 = (phys + 0xD0000000) % 2 ^ 32 / 4096 * 4096 := htoNat
    have hshare' : (shared + 0) % 2 ^ 32 = virt := hshare
    have hne : phys / 4096 * 4096 + virt % 4096 ≠ shared := by omega
    exact hne
  | riscv64 =>
    have hphys : phys < 0x80000000 := hlt
    have hshared : shared < 2 ^ 64 := hlt'
    have hvirt : virt / 4096 * 4096 = (phys + 0xFFFFFFFF00000000) % 2 ^ 64 / 4096 * 4096 := htoNat
    have hshare' : (shared + 0xFFFFFFC000000000) % 2 ^ 64 = virt := hshare
    have hne : phys / 4096 * 4096 + virt % 4096 ≠ shared := by omega
    exact hne

theorem ne_share_of_stack {x : Nat} {addr : VirtAddr arch} {frame : PhysFrame arch} (hx : IsPage arch x)
    (hpage : alignPageDown addr = stackPage arch x) (hframe : frame.addr.InMem)
    : frame.addr.toNat + addr.toNat % pageSize ≠ (share addr).toNat := by
  intro heq
  have haligned : frame.addr.toNat % 4096 = 0 := by
    rw [← frame.aligned, toNat_alignPageDown]
    exact Nat.mul_mod_left _ _
  have hinMem : (share addr).InMem := by
    have hmod := Nat.mod_lt addr.toNat (show 0 < 4096 by omega)
    obtain ⟨hbase, hlimit⟩ := hframe
    have hlimitAligned : arch.physMemLimit % 4096 = 0 := by
      cases arch <;> rfl
    rw [PhysAddr.InMem, ← heq]
    simp only [pageSize]
    omega
  apply hx.not_direct
  rw [← hpage]
  exact BootPageTable.inDirectMap_alignPageDown (inMem_share_iff.mp hinMem)

theorem reaches_share_iff (hbelow : ∀ d ∈ devices, d.region.BelowMemory arch) {addr : VirtAddr arch}
    : Reaches devices s addr (share addr).toNat ↔ addr.InDirectMap := by
  constructor
  . intro h
    generalize hpa : (share addr).toNat = pa at h
    cases h with
    | direct hp hvirt =>
      rw [← hvirt]
      exact PhysAddr.inDirectMap_toVirt hp
    | device hd hphys hpage _ =>
      exact absurd hpa.symm (ne_share_of_device (Device.lt_of_mem_addrs (hbelow _ hd) hphys) hpage)
    | stack hx hpage hframe => exact absurd hpa.symm (ne_share_of_stack hx hpage hframe.inMem)
  . intro h
    exact .direct (inMem_share_iff.mpr h) (toVirt_share addr)

theorem toNat_share_add {buffer : VirtAddr arch} {i : Nat} (h : (share buffer).InMem)
    (hfits : buffer.toNat + i < 2 ^ arch.bits)
    : (share (buffer + BitVec.ofNat arch.bits i)).toNat = (share buffer).toNat + i := by
  have hadd : share (buffer + BitVec.ofNat arch.bits i) = share buffer + BitVec.ofNat arch.bits i := by
    apply PhysAddr.toVirt_inj
    rw [toVirt_share, PhysAddr.toVirt, BitVec.add_assoc, BitVec.add_comm (BitVec.ofNat arch.bits i),
      ← BitVec.add_assoc, ← PhysAddr.toVirt, toVirt_share]
  have hbuffer := congrArg BitVec.toNat (toVirt_share buffer)
  have hlimit := h.2
  rw [PhysAddr.toNat_toVirt] at hbuffer
  rw [hadd, BitVec.toNat_add, BitVec.toNat_ofNat, Nat.add_mod_mod]
  generalize (share buffer).toNat = shared at hbuffer hlimit ⊢
  generalize buffer.toNat = virt at hfits hbuffer
  cases arch with
  | riscv32 =>
    have hlimit' : shared < 0xC0000000 := hlimit
    have hbuffer' : (shared + 0) % 2 ^ 32 = virt := hbuffer
    have hfits' : virt + i < 2 ^ 32 := hfits
    have hsum : (shared + i) % 2 ^ 32 = shared + i := by omega
    exact hsum
  | riscv64 =>
    have hlimit' : shared < 0x2000000000 := hlimit
    have hbuffer' : (shared + 0xFFFFFFC000000000) % 2 ^ 64 = virt := hbuffer
    have hfits' : virt + i < 2 ^ 64 := hfits
    have hsum : (shared + i) % 2 ^ 64 = shared + i := by omega
    exact hsum

/--
In every run of the allocator of the stacks, the device gets at the bytes of a buffer if and only if the whole
buffer is in the direct map.
-/
theorem share_iff_of_run {a : StackAllocator} {calls : List StackCall} {buffer : VirtAddr arch} {len : Nat}
    (hboots : s.Boots devices) (hbelow : ∀ d ∈ devices, d.region.BelowMemory arch)
    (hclear : ∀ d ∈ devices, ∀ addr ∈ d.addrs, Device.ClearOfStacks arch addr)
    (hmem : ∀ f ∈ s.bootPages, f.addr.InMem)
    (hrun : Run (StackAllocator.step callbacks) (StackAllocator.uniform executorStackSize)
      (executorStackAllocator arch, s) calls (a, s₁))
    (hfits : buffer.toNat + len ≤ 2 ^ arch.bits)
    : (∀ i < len, Mmu.translate s₁.table.mem s₁.table.root (buffer + BitVec.ofNat arch.bits i) =
          some ((share buffer).toNat + i)) ↔
        ∀ i < len, VirtAddr.InDirectMap (buffer + BitVec.ofNat arch.bits i) := by
  have hbyte (addr : VirtAddr arch)
      : Mmu.translate s₁.table.mem s₁.table.root addr = some (share addr).toNat ↔ addr.InDirectMap := by
    rw [← reaches_share_iff (s := s₁) hbelow]
    exact ⟨hboots.reaches hbelow hclear hmem hrun, Reaches.translate hboots hbelow hclear hmem hrun⟩
  have hfirst : buffer + BitVec.ofNat arch.bits 0 = buffer := BitVec.add_zero buffer
  constructor
  . intro h i hi
    have hbuffer := h 0 (by omega)
    rw [hfirst, Nat.add_zero, hbyte, ← inMem_share_iff] at hbuffer
    rw [← hbyte, h i hi, toNat_share_add hbuffer (by omega)]
  . intro h i hi
    have hbuffer := h 0 (by omega)
    rw [hfirst, ← inMem_share_iff] at hbuffer
    rw [← toNat_share_add hbuffer (by omega), hbyte]
    exact h i hi

theorem share_firstStack
    : ∃ t a s, (firstSpace t).Boots [Device.uart] ∧
        (executorStackAllocator .riscv64).allocate callbacks executorStackSize (firstSpace t) =
          (.ok 0xFFFFFFE000400000, a, s) ∧
        ¬ ∀ i < 64, Mmu.translate s.table.mem s.table.root
            (0xFFFFFFE0003FFF00 + BitVec.ofNat (Arch.bits .riscv64) i) =
              some ((share (0xFFFFFFE0003FFF00 : VirtAddr .riscv64)).toNat + i) := by
  obtain ⟨t, a, s, hboots, hallocate⟩ := exists_firstStack
  refine ⟨t, a, s, hboots, hallocate, ?_⟩
  rw [share_iff_of_run hboots (by decide) (by decide) inMem_firstSpace (run_firstStack hallocate) (by decide)]
  intro h
  have hdirect := h 0 (by omega)
  revert hdirect
  decide

end KernSpace

end Jrinx
