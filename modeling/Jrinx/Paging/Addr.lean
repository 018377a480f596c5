import Mathlib.Tactic

/-!
This module contains the addresses of the two architectures and the parts of `config/src/arch/riscv.rs`
that the page tables depend on, from `addr/src/lib.rs` and `addr-macro/src/lib.rs`.
-/

namespace Jrinx

inductive Arch where
  | riscv32
  | riscv64
  deriving DecidableEq, Repr

namespace Arch

def bits (arch : Arch) : Nat :=
  match arch with
  | .riscv32 => 32
  | .riscv64 => 64

def physMemBase (_ : Arch) : Nat := 0x80000000

def physMemLimit (arch : Arch) : Nat :=
  match arch with
  | .riscv32 => 0xC0000000
  | .riscv64 => 0x2000000000

def remapMemOffset (arch : Arch) : Nat :=
  match arch with
  | .riscv32 => 0
  | .riscv64 => 0xFFFFFFC000000000

def indexShifts (arch : Arch) : List Nat :=
  match arch with
  | .riscv32 => [22, 12]
  | .riscv64 => [30, 21, 12]

def indexMask (arch : Arch) : Nat :=
  match arch with
  | .riscv32 => 0x3ff
  | .riscv64 => 0x1ff

def virtBits (arch : Arch) : Nat :=
  match arch with
  | .riscv32 => 32
  | .riscv64 => 39

end Arch

def pageSize : Nat := 4096

variable {arch : Arch}

abbrev Word (arch : Arch) := BitVec arch.bits

abbrev PhysAddr (arch : Arch) := Word arch

abbrev VirtAddr (arch : Arch) := Word arch

instance : Std.TransOrd (VirtAddr arch) := inferInstanceAs (Std.TransOrd (BitVec arch.bits))

instance : Std.LawfulEqOrd (VirtAddr arch) := inferInstanceAs (Std.LawfulEqOrd (BitVec arch.bits))

def alignPageDown {w : Nat} (addr : BitVec w) : BitVec w := addr &&& ~~~(BitVec.ofNat w (pageSize - 1))

def pageOffset {w : Nat} (addr : BitVec w) : BitVec w := addr &&& BitVec.ofNat w (pageSize - 1)

namespace PhysAddr

def toVirt (addr : PhysAddr arch) : VirtAddr arch := addr + BitVec.ofNat _ arch.remapMemOffset

def InMem (addr : PhysAddr arch) : Prop :=
  arch.physMemBase ≤ addr.toNat ∧ addr.toNat < arch.physMemLimit

instance (addr : PhysAddr arch) : Decidable addr.InMem := inferInstanceAs (Decidable (_ ∧ _))

end PhysAddr

namespace VirtAddr

def indexes (addr : VirtAddr arch) : List Nat :=
  arch.indexShifts.map (fun shift => (addr >>> shift &&& BitVec.ofNat _ arch.indexMask).toNat)

def Canonical (addr : VirtAddr arch) : Prop :=
  addr.toNat < 2 ^ (arch.virtBits - 1) ∨ 2 ^ arch.bits - 2 ^ (arch.virtBits - 1) ≤ addr.toNat

def InDirectMap (addr : VirtAddr arch) : Prop :=
  PhysAddr.toVirt (BitVec.ofNat arch.bits arch.physMemBase) ≤ addr ∧
    addr < PhysAddr.toVirt (BitVec.ofNat arch.bits arch.physMemLimit)

instance (addr : VirtAddr arch) : Decidable addr.Canonical := inferInstanceAs (Decidable (_ ∨ _))

instance (addr : VirtAddr arch) : Decidable addr.InDirectMap := inferInstanceAs (Decidable (_ ∧ _))

end VirtAddr

section

variable {w : Nat} {addr : BitVec w}

theorem getLsbD_pageMask (i : Nat)
    : (BitVec.ofNat w (pageSize - 1)).getLsbD i = (decide (i < w) && decide (i < 12)) := by
  have hmask : pageSize - 1 = 2 ^ 12 - 1 := rfl
  rw [BitVec.getLsbD_ofNat, hmask, Nat.testBit_two_pow_sub_one]

theorem getLsbD_alignPageDown (i : Nat)
    : (alignPageDown addr).getLsbD i = (addr.getLsbD i && !decide (i < 12)) := by
  simp only [alignPageDown, BitVec.getLsbD_and, BitVec.getLsbD_not, getLsbD_pageMask]
  by_cases hi : i < w
  . simp [hi]
  . simp [hi, BitVec.getLsbD_of_ge addr i (by omega)]

theorem alignPageDown_eq_shift : alignPageDown addr = addr >>> 12 <<< 12 := by
  apply BitVec.eq_of_getLsbD_eq
  intro i hi
  rw [getLsbD_alignPageDown, BitVec.getLsbD_shiftLeft, BitVec.getLsbD_ushiftRight]
  by_cases h12 : i < 12
  . simp [h12]
  . simp [h12, hi, show 12 + (i - 12) = i by omega]

theorem toNat_alignPageDown : (alignPageDown addr).toNat = addr.toNat / 4096 * 4096 := by
  have hlt : addr.toNat / 4096 * 4096 < 2 ^ w := by
    have := addr.isLt
    omega
  rw [alignPageDown_eq_shift, BitVec.toNat_shiftLeft, BitVec.toNat_ushiftRight, Nat.shiftLeft_eq,
    Nat.shiftRight_eq_div_pow]
  exact Nat.mod_eq_of_lt hlt

@[simp]
theorem alignPageDown_alignPageDown : alignPageDown (alignPageDown addr) = alignPageDown addr := by
  apply BitVec.eq_of_toNat_eq
  rw [toNat_alignPageDown, toNat_alignPageDown]
  omega

end

namespace PhysAddr

variable {addr addr' : PhysAddr arch}

theorem toVirt_inj (h : addr.toVirt = addr'.toVirt) : addr = addr' := by
  simpa [toVirt] using h

theorem toNat_toVirt : addr.toVirt.toNat = (addr.toNat + arch.remapMemOffset) % 2 ^ arch.bits := by
  rw [toVirt, BitVec.toNat_add, BitVec.toNat_ofNat, Nat.add_mod_mod]

theorem alignPageDown_toVirt (h : alignPageDown addr = addr)
    : alignPageDown addr.toVirt = addr.toVirt := by
  have hdvd : 4096 ∣ addr.toNat := by
    rw [← h, toNat_alignPageDown]
    apply Nat.dvd_mul_left
  have hbits : 4096 ∣ 2 ^ arch.bits := by
    cases arch <;> decide
  have hoffset : 4096 ∣ arch.remapMemOffset := by
    cases arch <;> decide
  apply BitVec.eq_of_toNat_eq
  rw [toNat_alignPageDown, toNat_toVirt]
  apply Nat.div_mul_cancel
  rw [Nat.dvd_mod_iff hbits]
  exact Nat.dvd_add hdvd hoffset

theorem inDirectMap_toVirt (h : addr.InMem) : addr.toVirt.InDirectMap := by
  unfold InMem at h
  unfold VirtAddr.InDirectMap
  rw [BitVec.le_def, BitVec.lt_def, toNat_toVirt, toNat_toVirt, toNat_toVirt, BitVec.toNat_ofNat,
    BitVec.toNat_ofNat]
  cases arch with
  | riscv32 | riscv64 =>
    simp only [Arch.bits, Arch.remapMemOffset, Arch.physMemBase, Arch.physMemLimit] at *
    omega

end PhysAddr

namespace VirtAddr

variable {addr addr' : VirtAddr arch}

theorem indexes_eq
    : addr.indexes =
        arch.indexShifts.map (fun shift => addr.toNat / 2 ^ shift % (arch.indexMask + 1)) := by
  apply List.map_congr_left
  intro shift _
  have hmask : ∃ n, arch.indexMask = 2 ^ n - 1 ∧ arch.indexMask < 2 ^ arch.bits := by
    cases arch with
    | riscv32 => exact ⟨10, by decide⟩
    | riscv64 => exact ⟨9, by decide⟩
  obtain ⟨n, hn, hlt⟩ := hmask
  rw [BitVec.toNat_and, BitVec.toNat_ushiftRight, BitVec.toNat_ofNat, Nat.mod_eq_of_lt hlt, hn,
    Nat.and_two_pow_sub_one_eq_mod, Nat.shiftRight_eq_div_pow, Nat.sub_add_cancel Nat.one_le_two_pow]

theorem head_indexes32 (addr : VirtAddr .riscv32) : addr.indexes.headD 0 = addr.toNat / 2 ^ 22 % 1024 := by
  rw [indexes_eq]
  rfl

theorem head_indexes64 (addr : VirtAddr .riscv64) : addr.indexes.headD 0 = addr.toNat / 2 ^ 30 % 512 := by
  rw [indexes_eq]
  rfl

theorem indexes_alignPageDown : VirtAddr.indexes (alignPageDown addr) = addr.indexes := by
  simp only [indexes_eq, toNat_alignPageDown]
  cases arch with
  | riscv32 | riscv64 =>
    simp only [Arch.indexShifts, Arch.indexMask, List.map_cons, List.map_nil, List.cons.injEq, and_true]
    omega

theorem alignPageDown_eq_of_indexes (hcan : addr.Canonical) (hcan' : addr'.Canonical)
    (h : addr.indexes = addr'.indexes)
    : alignPageDown addr = alignPageDown addr' := by
  have hlt := addr.isLt
  have hlt' := addr'.isLt
  apply BitVec.eq_of_toNat_eq
  simp only [indexes_eq, Canonical] at *
  rw [toNat_alignPageDown, toNat_alignPageDown]
  cases arch with
  | riscv32 | riscv64 =>
    simp only [Arch.indexShifts, Arch.indexMask, Arch.virtBits, Arch.bits, List.map_cons, List.map_nil,
      List.cons.injEq, and_true] at *
    omega

theorem inDirectMap_of_alignPageDown (h : VirtAddr.InDirectMap (alignPageDown addr))
    : addr.InDirectMap := by
  unfold InDirectMap at *
  rw [BitVec.le_def, BitVec.lt_def, PhysAddr.toNat_toVirt, PhysAddr.toNat_toVirt, BitVec.toNat_ofNat,
    BitVec.toNat_ofNat] at *
  rw [toNat_alignPageDown] at h
  cases arch with
  | riscv32 | riscv64 =>
    simp only [Arch.bits, Arch.remapMemOffset, Arch.physMemBase, Arch.physMemLimit] at *
    omega

theorem canonical_alignPageDown (h : addr.Canonical) : VirtAddr.Canonical (alignPageDown addr) := by
  unfold Canonical at *
  rw [toNat_alignPageDown]
  cases arch with
  | riscv32 | riscv64 =>
    simp only [Arch.virtBits, Arch.bits] at *
    omega

end VirtAddr

end Jrinx
