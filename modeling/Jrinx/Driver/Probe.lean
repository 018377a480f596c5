import Jrinx.Multitask.ExecutorStack

/-!
This module contains what the probes of the drivers map into the boot page table, from
`driver/src/uart/ns16550a.rs`, `driver/src/net/virtio.rs` and `driver/src/irq/riscv_plic.rs`. They take
the address of a region from the device tree as it is, the end of `EXTERNAL_DEVICE_REGION` is not tested.
-/

namespace Jrinx

variable {arch : Arch}

def Arch.externalDeviceRegion (arch : Arch) : VirtMemRegion :=
  match arch with
  | .riscv32 => { addr := 0xD0000000, len := 0xE0000000 - 0xD0000000 }
  | .riscv64 => { addr := 0xFFFFFFFF00000000, len := 0xF0000000 }

-- The first entry of the property `reg` of a node.
structure MemoryRegion where
  startingAddress : Nat
  size : Option Nat
  deriving DecidableEq, Repr

inductive Driver where
  | ns16550a
  | virtioMmio
  | plic
  deriving DecidableEq, Repr

structure Device where
  driver : Driver
  region : MemoryRegion
  deriving DecidableEq, Repr

def MemoryRegion.BelowMemory (arch : Arch) (region : MemoryRegion) : Prop :=
  region.startingAddress < arch.physMemBase ∧
    ∀ size ∈ region.size, region.startingAddress + size ≤ arch.physMemBase

instance (region : MemoryRegion) : Decidable (region.BelowMemory arch) :=
  inferInstanceAs (Decidable (_ ∧ _))

-- The physical addresses that a probe gives to `BootPageTable::map`.
def Driver.addrs (driver : Driver) (startingAddress size : Nat) : List Nat :=
  match driver with
  | .ns16550a => [startingAddress]
  | .virtioMmio => [startingAddress]
  | .plic => (List.range (size / pageSize)).map (fun i => startingAddress + i * pageSize)

def Device.addrs (d : Device) : List Nat :=
  match d.region.size with
  | none => []
  | some size => d.driver.addrs d.region.startingAddress size

-- The virtual address for a physical one, the sum may wrap around.
def deviceAddr (arch : Arch) (addr : Nat) : VirtAddr arch :=
  BitVec.ofNat _ (addr + arch.externalDeviceRegion.addr)

def devicePage (arch : Arch) (addr : Nat) : VirtAddr arch := alignPageDown (deviceAddr arch addr)

namespace BootPageTable

def mapAll (b : BootPageTable arch) (addrs : List Nat) : Outcome (BootPageTable arch) :=
  match addrs with
  | [] => .next b
  | addr :: addrs =>
    match b.map (deviceAddr arch addr) (BitVec.ofNat _ addr) with
    | .next b => b.mapAll addrs
    | .panic => .panic
    | .disabled => .disabled

def probe (b : BootPageTable arch) (d : Device) : Outcome (BootPageTable arch) :=
  match d.region.size with
  -- `DevProbeError`, which is unwrapped by `probe_all`
  | none => .panic
  | some size => b.mapAll (d.driver.addrs d.region.startingAddress size)

def probeAll (b : BootPageTable arch) (devices : List Device) : Outcome (BootPageTable arch) :=
  match devices with
  | [] => .next b
  | d :: devices =>
    match b.probe d with
    | .next b => b.probeAll devices
    | .panic => .panic
    | .disabled => .disabled

variable {b b' : BootPageTable arch} {pages : List (PhysFrame arch)}

theorem own_of_head {addr : VirtAddr arch} (h : ¬ Remapped arch (addr.indexes.headD 0))
    : Own arch addr.path := by
  apply own_path
  intro i hi
  have hhead : addr.indexes.headD 0 = i := by
    rw [List.headD_eq_head?_getD, hi, Option.getD_some]
  rwa [hhead] at h

end BootPageTable

theorem toNat_deviceAddr (addr : Nat)
    : (deviceAddr arch addr).toNat = (addr + arch.externalDeviceRegion.addr) % 2 ^ arch.bits :=
  BitVec.toNat_ofNat _ _

theorem own_devicePage {addr : Nat} (h : addr < arch.physMemBase)
    : BootPageTable.Own arch (devicePage arch addr).path := by
  apply BootPageTable.own_of_head
  rw [devicePage, VirtAddr.indexes_alignPageDown]
  cases arch with
  | riscv32 =>
    have haddr : (deviceAddr .riscv32 addr).toNat = (addr + 0xD0000000) % 2 ^ 32 := toNat_deviceAddr addr
    have hlt : addr < 0x80000000 := h
    rw [VirtAddr.head_indexes32, haddr]
    generalize hslot : (addr + 0xD0000000) % 2 ^ 32 / 2 ^ 22 % 1024 = slot
    have hrange : slot < 320 ∨ 832 ≤ slot := by omega
    rintro ⟨hle, hlt⟩
    omega
  | riscv64 =>
    have haddr : (deviceAddr .riscv64 addr).toNat = (addr + 0xFFFFFFFF00000000) % 2 ^ 64 :=
      toNat_deviceAddr addr
    have hlt : addr < 0x80000000 := h
    rw [VirtAddr.head_indexes64, haddr]
    generalize hslot : (addr + 0xFFFFFFFF00000000) % 2 ^ 64 / 2 ^ 30 % 512 = slot
    have hrange : 508 ≤ slot := by omega
    rintro (rfl | ⟨_, hlt⟩)
    . omega
    . omega

theorem Device.lt_of_mem_addrs {d : Device} (h : d.region.BelowMemory arch) {addr : Nat}
    (haddr : addr ∈ d.addrs)
    : addr < arch.physMemBase := by
  obtain ⟨hstart, hend⟩ := h
  rw [Device.addrs] at haddr
  split at haddr
  next => simp at haddr
  next size hsize =>
    have hle := hend size (by rw [hsize]; rfl)
    cases hdriver : d.driver with
    | ns16550a =>
      simp only [hdriver, Driver.addrs, List.mem_singleton] at haddr
      omega
    | virtioMmio =>
      simp only [hdriver, Driver.addrs, List.mem_singleton] at haddr
      omega
    | plic =>
      simp only [hdriver, Driver.addrs, List.mem_map, List.mem_range] at haddr
      obtain ⟨i, hi, rfl⟩ := haddr
      simp only [pageSize] at *
      omega

namespace BootPageTable

variable {b b' : BootPageTable arch} {pages : List (PhysFrame arch)}

theorem Wf.mapAll {addrs : List Nat} (h : b.Wf pages) (hpages : (b.root :: pages).Nodup)
    (hlt : ∀ addr ∈ addrs, addr < arch.physMemBase) (hmap : b.mapAll addrs = .next b')
    : b'.root = b.root ∧ b'.Wf pages := by
  induction addrs generalizing b with
  | nil =>
    obtain rfl := Outcome.next.inj hmap
    exact ⟨rfl, h⟩
  | cons addr addrs ih =>
    rw [BootPageTable.mapAll] at hmap
    split at hmap
    next b₁ hfirst =>
      obtain ⟨hroot, hwf⟩ := map_spec h hpages (own_devicePage (hlt addr (by simp))) hfirst
      rw [← hroot] at hpages ⊢
      exact ih hwf hpages (fun addr haddr => hlt addr (by simp [haddr])) hmap
    next => simp at hmap
    next => simp at hmap

theorem Wf.probe {d : Device} (h : b.Wf pages) (hpages : (b.root :: pages).Nodup)
    (hbelow : d.region.BelowMemory arch) (hprobe : b.probe d = .next b')
    : b'.root = b.root ∧ b'.Wf pages := by
  have hlt (addr : Nat) (haddr : addr ∈ d.addrs) := d.lt_of_mem_addrs hbelow haddr
  rw [BootPageTable.probe] at hprobe
  rw [Device.addrs] at hlt
  split at hprobe
  next => simp at hprobe
  next size hsize =>
    rw [hsize] at hlt
    exact h.mapAll hpages hlt hprobe

theorem Wf.probeAll {devices : List Device} (h : b.Wf pages) (hpages : (b.root :: pages).Nodup)
    (hbelow : ∀ d ∈ devices, d.region.BelowMemory arch) (hprobe : b.probeAll devices = .next b')
    : b'.root = b.root ∧ b'.Wf pages := by
  induction devices generalizing b with
  | nil =>
    obtain rfl := Outcome.next.inj hprobe
    exact ⟨rfl, h⟩
  | cons d devices ih =>
    rw [BootPageTable.probeAll] at hprobe
    split at hprobe
    next b₁ hfirst =>
      obtain ⟨hroot, hwf⟩ := h.probe hpages (hbelow d (by simp)) hfirst
      rw [← hroot] at hpages ⊢
      exact ih hwf hpages (fun d hd => hbelow d (by simp [hd])) hprobe
    next => simp at hprobe
    next => simp at hprobe

end BootPageTable

end Jrinx
