import Jrinx.Paging.BootMapping

/-!
This module contains the direct map: the huge pages of the boot page table, through which the kernel gets at
the physical memory. They are in the root, and no call of `map` reaches them.
-/

namespace Jrinx

variable {arch : Arch}

namespace Mmu

theorem walk_huge {mem : Memory arch} {addr : VirtAddr arch} {pa shift : Nat} {shifts : List Nat}
    {phys : PhysAddr arch} (hentry : mem (table pa) (index addr shift) = .set phys BootPageTable.perm)
    (hlt : (alignPageDown phys).toNat < 2 ^ arch.physBits)
    (haligned : (alignPageDown phys).toNat % 2 ^ shift = 0)
    : walk mem addr pa (shift :: shifts) = some ((alignPageDown phys).toNat + addr.toNat % 2 ^ shift) := by
  have haccepted := (accepted_set_iff phys).mpr hlt
  simp only [walk, hentry, if_pos haccepted, isLeaf_set, if_true, PageTableEntry.frame_set, haligned]

end Mmu

namespace BootPageTable

section Init

variable {root : PhysFrame arch} {mem : Memory arch} {heap : List (PhysFrame arch)}

def hugeSlot (arch : Arch) (region : RemapMemRegion) (i : Nat) : Nat :=
  (VirtAddr.indexes (BitVec.ofNat arch.bits (region.virtAddr + i * arch.remapHugePageSize))).headD 0

def hugeEntry (arch : Arch) (region : RemapMemRegion) (i : Nat) : PageTableEntry arch.bits :=
  .set (BitVec.ofNat arch.bits (region.physAddr + i * arch.remapHugePageSize)) perm

theorem remap_eq (root : PhysFrame arch) (mem : Memory arch) (region : RemapMemRegion)
    : init.remap root mem region =
        (List.range (region.len / arch.remapHugePageSize)).foldl
          (fun mem i => RadixTree.store mem root.addr.toVirt (hugeSlot arch region i) (hugeEntry arch region i))
          mem := rfl

theorem hugeSlot32 {i : Nat} (hi : i < 256)
    : hugeSlot .riscv32 ⟨0x80000000, 0x80000000, 0x40000000⟩ i = 512 + i := by
  rw [hugeSlot, VirtAddr.head_indexes32, BitVec.toNat_ofNat]
  have hslot : (0x80000000 + i * 0x400000) % 2 ^ 32 / 2 ^ 22 % 1024 = 512 + i := by omega
  exact hslot

theorem hugeSlot64 {i : Nat} (hi : i < 126)
    : hugeSlot .riscv64 ⟨0xFFFFFFC080000000, 0x80000000, 0x1F80000000⟩ i = 258 + i := by
  rw [hugeSlot, VirtAddr.head_indexes64, BitVec.toNat_ofNat]
  have hslot : (0xFFFFFFC080000000 + i * 0x40000000) % 2 ^ 64 / 2 ^ 30 % 512 = 258 + i := by omega
  exact hslot

theorem mem_init32 (root : PhysFrame .riscv32) (mem : Memory .riscv32) (heap : List (PhysFrame .riscv32))
    {i : Nat} (hi : i < 256)
    : (zeroed root mem heap).init.mem root.addr.toVirt (512 + i) =
        hugeEntry .riscv32 ⟨0x80000000, 0x80000000, 0x40000000⟩ i := by
  have hregions : Arch.remapMemRegions .riscv32 = [⟨0x80000000, 0x80000000, 0x40000000⟩] := rfl
  unfold init
  dsimp only
  rw [hregions, List.foldl_cons, List.foldl_nil, remap_eq, ← hugeSlot32 hi]
  apply RadixTree.foldl_store hi
  intro j hj heq
  rw [hugeSlot32 hi, hugeSlot32 hj] at heq
  omega

theorem mem_init64 (root : PhysFrame .riscv64) (mem : Memory .riscv64) (heap : List (PhysFrame .riscv64))
    {i : Nat} (hi : i < 126)
    : (zeroed root mem heap).init.mem root.addr.toVirt (258 + i) =
        hugeEntry .riscv64 ⟨0xFFFFFFC080000000, 0x80000000, 0x1F80000000⟩ i := by
  have hregions : Arch.remapMemRegions .riscv64 =
      [⟨0x80000000, 0x80000000, 0x40000000⟩, ⟨0xFFFFFFC080000000, 0x80000000, 0x1F80000000⟩] := rfl
  unfold init
  dsimp only
  rw [hregions, List.foldl_cons, List.foldl_cons, List.foldl_nil, remap_eq, ← hugeSlot64 hi]
  apply RadixTree.foldl_store hi
  intro j hj heq
  rw [hugeSlot64 hi, hugeSlot64 hj] at heq
  omega

end Init

/--
The slot of every physical address in the direct map holds the huge page that the address lies in.
-/
def DirectMapped (mem : Memory arch) (root : PhysAddr arch) : Prop :=
  ∀ p : PhysAddr arch, p.InMem → ∀ shift ∈ arch.indexShifts.head?,
    ∃ phys, mem root.toVirt (Mmu.index p.toVirt shift) = .set phys perm ∧
      (alignPageDown phys).toNat = p.toNat / 2 ^ shift * 2 ^ shift

structure DirectSlot (arch : Arch) (i : Nat) : Prop where
  remapped : Remapped arch i
  upper : arch.pageEntries / 2 ≤ i ∧ i < arch.pageEntries

theorem index_toVirt32 {p : PhysAddr .riscv32} (h : p.InMem)
    : ∃ i < 256, Mmu.index p.toVirt 22 = 512 + i ∧ p.toNat / 2 ^ 22 * 2 ^ 22 = 0x80000000 + i * 0x400000 := by
  have hlow : 0x80000000 ≤ p.toNat := h.1
  have hhigh : p.toNat < 0xC0000000 := h.2
  have htoNat : p.toVirt.toNat = p.toNat := by
    rw [PhysAddr.toNat_toVirt]
    exact Nat.mod_eq_of_lt p.isLt
  refine ⟨(p.toNat - 0x80000000) / 2 ^ 22, by omega, ?_, by omega⟩
  rw [Mmu.index, htoNat]
  have hindex : p.toNat / 2 ^ 22 % 1024 = 512 + (p.toNat - 0x80000000) / 2 ^ 22 := by omega
  exact hindex

theorem index_toVirt64 {p : PhysAddr .riscv64} (h : p.InMem)
    : ∃ i < 126, Mmu.index p.toVirt 30 = 258 + i ∧ p.toNat / 2 ^ 30 * 2 ^ 30 = 0x80000000 + i * 0x40000000 := by
  have hlow : 0x80000000 ≤ p.toNat := h.1
  have hhigh : p.toNat < 0x2000000000 := h.2
  have htoNat : p.toVirt.toNat = (p.toNat + 0xFFFFFFC000000000) % 2 ^ 64 := PhysAddr.toNat_toVirt
  refine ⟨(p.toNat - 0x80000000) / 2 ^ 30, by omega, ?_, by omega⟩
  rw [Mmu.index, htoNat]
  have hindex : (p.toNat + 0xFFFFFFC000000000) % 2 ^ 64 / 2 ^ 30 % 512 =
      258 + (p.toNat - 0x80000000) / 2 ^ 30 := by omega
  exact hindex

theorem directSlot_toVirt {p : PhysAddr arch} (h : p.InMem) {shift : Nat}
    (hshift : shift ∈ arch.indexShifts.head?)
    : DirectSlot arch (Mmu.index p.toVirt shift) := by
  cases arch with
  | riscv32 =>
    obtain rfl := Option.mem_some_iff.mp hshift
    obtain ⟨i, hi, hindex, _⟩ := index_toVirt32 h
    rw [hindex]
    have hremapped : 512 ≤ 512 + i ∧ 512 + i < 768 := by omega
    have hupper : 512 ≤ 512 + i ∧ 512 + i < 1024 := by omega
    exact ⟨hremapped, hupper⟩
  | riscv64 =>
    obtain rfl := Option.mem_some_iff.mp hshift
    obtain ⟨i, hi, hindex, _⟩ := index_toVirt64 h
    rw [hindex]
    have hremapped : 258 + i = 2 ∨ 258 ≤ 258 + i ∧ 258 + i < 384 := by omega
    have hupper : 256 ≤ 258 + i ∧ 258 + i < 512 := by omega
    exact ⟨hremapped, hupper⟩

theorem inDirectMap_iff {addr : VirtAddr arch}
    : addr.InDirectMap ↔ ∃ p : PhysAddr arch, p.InMem ∧ p.toVirt = addr := by
  constructor
  . intro h
    obtain ⟨p, rfl⟩ : ∃ p : PhysAddr arch, p.toVirt = addr :=
      ⟨addr - BitVec.ofNat arch.bits arch.remapMemOffset, BitVec.sub_add_cancel _ _⟩
    refine ⟨p, ?_, rfl⟩
    have hlt := p.isLt
    rw [VirtAddr.InDirectMap, BitVec.le_def, BitVec.lt_def, PhysAddr.toNat_toVirt, PhysAddr.toNat_toVirt,
      PhysAddr.toNat_toVirt, BitVec.toNat_ofNat, BitVec.toNat_ofNat] at h
    rw [PhysAddr.InMem]
    generalize p.toNat = phys at h hlt ⊢
    cases arch with
    | riscv32 =>
      have hlt' : phys < 2 ^ 32 := hlt
      have h' : (0x80000000 % 2 ^ 32 + 0) % 2 ^ 32 ≤ (phys + 0) % 2 ^ 32 ∧
          (phys + 0) % 2 ^ 32 < (0xC0000000 % 2 ^ 32 + 0) % 2 ^ 32 := h
      have hmem : 0x80000000 ≤ phys ∧ phys < 0xC0000000 := by omega
      exact hmem
    | riscv64 =>
      have hlt' : phys < 2 ^ 64 := hlt
      have h' : (0x80000000 % 2 ^ 64 + 0xFFFFFFC000000000) % 2 ^ 64 ≤ (phys + 0xFFFFFFC000000000) % 2 ^ 64 ∧
          (phys + 0xFFFFFFC000000000) % 2 ^ 64 < (0x2000000000 % 2 ^ 64 + 0xFFFFFFC000000000) % 2 ^ 64 := h
      have hmem : 0x80000000 ≤ phys ∧ phys < 0x2000000000 := by omega
      exact hmem
  . rintro ⟨p, hp, rfl⟩
    exact PhysAddr.inDirectMap_toVirt hp

theorem inDirectMap_alignPageDown {addr : VirtAddr arch} (h : addr.InDirectMap)
    : VirtAddr.InDirectMap (alignPageDown addr) := by
  rw [VirtAddr.InDirectMap, BitVec.le_def, BitVec.lt_def, PhysAddr.toNat_toVirt, PhysAddr.toNat_toVirt,
    BitVec.toNat_ofNat, BitVec.toNat_ofNat] at *
  rw [toNat_alignPageDown]
  cases arch with
  | riscv32 | riscv64 =>
    simp only [Arch.bits, Arch.remapMemOffset, Arch.physMemBase, Arch.physMemLimit] at *
    omega

theorem lower_or_inDirectMap {addr : VirtAddr arch} (hcanonical : addr.Canonical) {shift : Nat}
    (hshift : shift ∈ arch.indexShifts.head?) (h : Remapped arch (Mmu.index addr shift))
    : Mmu.index addr shift < arch.pageEntries / 2 ∨ addr.InDirectMap := by
  rw [VirtAddr.InDirectMap, BitVec.le_def, BitVec.lt_def, PhysAddr.toNat_toVirt, PhysAddr.toNat_toVirt,
    BitVec.toNat_ofNat, BitVec.toNat_ofNat]
  rw [VirtAddr.Canonical] at hcanonical
  rw [Mmu.index] at h ⊢
  have hlt := addr.isLt
  generalize addr.toNat = virt at hcanonical h hlt ⊢
  cases arch with
  | riscv32 =>
    obtain rfl := Option.mem_some_iff.mp hshift
    have hlt' : virt < 2 ^ 32 := hlt
    have h' : 512 ≤ virt / 2 ^ 22 % 1024 ∧ virt / 2 ^ 22 % 1024 < 768 := h
    have hdirect : (0x80000000 % 2 ^ 32 + 0) % 2 ^ 32 ≤ virt ∧
        virt < (0xC0000000 % 2 ^ 32 + 0) % 2 ^ 32 := by omega
    exact .inr hdirect
  | riscv64 =>
    obtain rfl := Option.mem_some_iff.mp hshift
    have hlt' : virt < 2 ^ 64 := hlt
    have hcanonical' : virt < 2 ^ 38 ∨ 2 ^ 64 - 2 ^ 38 ≤ virt := hcanonical
    rcases h with h | h
    . have hlow : virt / 2 ^ 30 % 512 < 256 := by
        have h' : virt / 2 ^ 30 % 512 = 2 := h
        omega
      exact .inl hlow
    . have h' : 258 ≤ virt / 2 ^ 30 % 512 ∧ virt / 2 ^ 30 % 512 < 384 := h
      have hdirect : (0x80000000 % 2 ^ 64 + 0xFFFFFFC000000000) % 2 ^ 64 ≤ virt ∧
          virt < (0x2000000000 % 2 ^ 64 + 0xFFFFFFC000000000) % 2 ^ 64 := by omega
      exact .inr hdirect

theorem directMapped_init (root : PhysFrame arch) (mem : Memory arch) (heap : List (PhysFrame arch))
    : DirectMapped (zeroed root mem heap).init.mem root.addr := by
  have hpage32 {i : Nat} (hi : i < 256)
      : (0x80000000 + i * 0x400000) % 2 ^ 32 / 4096 * 4096 = 0x80000000 + i * 0x400000 := by omega
  have hpage64 {i : Nat} (hi : i < 126)
      : (0x80000000 + i * 0x40000000) % 2 ^ 64 / 4096 * 4096 = 0x80000000 + i * 0x40000000 := by omega
  intro p hp shift hshift
  have hphys (region : RemapMemRegion) (i : Nat)
      : (alignPageDown (BitVec.ofNat arch.bits (region.physAddr + i * arch.remapHugePageSize))).toNat =
          (region.physAddr + i * arch.remapHugePageSize) % 2 ^ arch.bits / 4096 * 4096 := by
    rw [toNat_alignPageDown, BitVec.toNat_ofNat]
  cases arch with
  | riscv32 =>
    obtain rfl := Option.mem_some_iff.mp hshift
    obtain ⟨i, hi, hindex, hpage⟩ := index_toVirt32 hp
    refine ⟨_, by rw [hindex]; exact mem_init32 root mem heap hi, ?_⟩
    rw [hphys, hpage]
    exact hpage32 hi
  | riscv64 =>
    obtain rfl := Option.mem_some_iff.mp hshift
    obtain ⟨i, hi, hindex, hpage⟩ := index_toVirt64 hp
    refine ⟨_, by rw [hindex]; exact mem_init64 root mem heap hi, ?_⟩
    rw [hphys, hpage]
    exact hpage64 hi

theorem canonical_toVirt {p : PhysAddr arch} (h : p.InMem) : p.toVirt.Canonical := by
  have htoNat : p.toVirt.toNat = (p.toNat + arch.remapMemOffset) % 2 ^ arch.bits := PhysAddr.toNat_toVirt
  have hlow := h.1
  have hhigh := h.2
  right
  cases arch with
  | riscv32 =>
    have hlow' : 0x80000000 ≤ p.toNat := hlow
    have htoNat' : p.toVirt.toNat = p.toNat := htoNat.trans (Nat.mod_eq_of_lt p.isLt)
    rw [htoNat']
    exact hlow'
  | riscv64 =>
    have hlow' : 0x80000000 ≤ p.toNat := hlow
    have hhigh' : p.toNat < 0x2000000000 := hhigh
    have htoNat' : p.toVirt.toNat = (p.toNat + 0xFFFFFFC000000000) % 2 ^ 64 := htoNat
    have hupper : 0xFFFFFFC000000000 ≤ p.toVirt.toNat := by omega
    exact hupper

theorem toVirt_mod {p : PhysAddr arch} {shift : Nat} (hshift : shift ∈ arch.indexShifts.head?)
    : p.toVirt.toNat % 2 ^ shift = p.toNat % 2 ^ shift := by
  rw [PhysAddr.toNat_toVirt]
  cases arch with
  | riscv32 =>
    obtain rfl := Option.mem_some_iff.mp hshift
    have heq : (p.toNat + 0) % 2 ^ 32 % 2 ^ 22 = p.toNat % 2 ^ 22 := by omega
    exact heq
  | riscv64 =>
    obtain rfl := Option.mem_some_iff.mp hshift
    have heq : (p.toNat + 0xFFFFFFC000000000) % 2 ^ 64 % 2 ^ 30 = p.toNat % 2 ^ 30 := by omega
    exact heq

theorem DirectMapped.translate {mem : Memory arch} {root p : PhysAddr arch} (h : DirectMapped mem root)
    (hp : p.InMem)
    : Mmu.translate mem root p.toVirt = some p.toNat := by
  obtain ⟨shift, shifts, hshifts, _⟩ := exists_shift arch
  have hshift : shift ∈ arch.indexShifts.head? := by
    rw [hshifts]
    rfl
  obtain ⟨phys, hentry, hphys⟩ := h p hp shift hshift
  have hlimit : arch.physMemLimit ≤ 2 ^ arch.physBits := by
    cases arch <;> decide
  rw [Mmu.translate, if_pos (canonical_toVirt hp), hshifts, @Mmu.walk_huge arch _ _ _ _ _ phys]
  . rw [hphys, toVirt_mod hshift, Nat.div_add_mod']
  . rw [Mmu.table_root]
    exact hentry
  . rw [hphys]
    exact Nat.lt_of_le_of_lt (Nat.div_mul_le_self _ _) (Nat.lt_of_lt_of_le hp.2 hlimit)
  . rw [hphys]
    exact Nat.mul_mod_left _ _

theorem Exact.directMapped {root : PhysFrame arch} {mem : Memory arch} {heap pages : List (PhysFrame arch)}
    {m : Mapped arch} {b : BootPageTable arch} (h : Exact (zeroed root mem heap).init pages m b)
    : DirectMapped b.mem b.root.addr := by
  intro p hp shift hshift
  have hslot := (directSlot_toVirt hp hshift).remapped
  obtain ⟨phys, hentry, hphys⟩ := directMapped_init root mem heap p hp shift hshift
  refine ⟨phys, ?_, hphys⟩
  rw [h.remapped _ hslot]
  exact hentry

theorem DirectMapped.new {b : BootPageTable arch} {frame : PhysFrame arch} {t : PageTable arch}
    (h : DirectMapped b.mem b.root.addr) (hnew : PageTable.new b.mem b.entries [frame] = .ok t)
    : DirectMapped t.mem t.root := by
  obtain ⟨_, _, _, hroot⟩ := mem_new hnew
  have hbase : t.root.toVirt = base frame := by
    rw [← Except.ok.inj hnew]
    rfl
  intro p hp shift hshift
  rw [hbase, hroot, if_pos (directSlot_toVirt hp hshift).upper]
  exact h p hp shift hshift

end BootPageTable

end Jrinx
