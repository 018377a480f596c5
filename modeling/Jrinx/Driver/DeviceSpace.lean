import Jrinx.Driver.ProbeStep
import Jrinx.Multitask.AddressSpace
import Jrinx.Util.Stages

/-!
This module contains what the boot page table translates while the devices are probed: the addresses of the devices
whose pages have been mapped, each of them to itself, and the memory.
-/

namespace Jrinx

variable {arch : Arch}

theorem toNat_deviceAddr_mod (arch : Arch) (x : Nat) : (deviceAddr arch x).toNat % pageSize = x % pageSize := by
  rw [toNat_deviceAddr, pageSize]
  cases arch with
  | riscv32 =>
    have hmod : (x + 0xD0000000) % 2 ^ 32 % 4096 = x % 4096 := by omega
    exact hmod
  | riscv64 =>
    have hmod : (x + 0xFFFFFFFF00000000) % 2 ^ 64 % 4096 = x % 4096 := by omega
    exact hmod

namespace BootPageTable

variable {b b' b₁ start : BootPageTable arch} {pages : List (PhysFrame arch)} {addrs : List Nat} {x : Nat}

theorem mapAll_append {as bs : List Nat} (h : b.mapAll as = .next b₁) : b.mapAll (as ++ bs) = b₁.mapAll bs := by
  induction as generalizing b with
  | nil =>
    rw [mapAll, Outcome.next.injEq] at h
    rw [List.nil_append, h]
  | cons addr as ih =>
    rw [mapAll] at h
    rw [List.cons_append, mapAll]
    split at h
    next b₂ hfirst => exact ih h
    next => simp at h
    next => simp at h

theorem after_devicePage (hlt : ∀ addr ∈ addrs, addr < arch.physMemBase) (hx : x < arch.physMemBase)
    : (∀ phys, Mapped.after (addrs.map (deviceMap arch)) (devicePage arch x) = some phys →
        ∃ addr ∈ addrs, addr / pageSize = x / pageSize ∧ phys = BitVec.ofNat _ addr) ∧
      (Mapped.after (addrs.map (deviceMap arch)) (devicePage arch x) = none →
        ∀ addr ∈ addrs, addr / pageSize ≠ x / pageSize) := by
  constructor
  . intro phys hphys
    obtain ⟨_, ha, hpage, rfl⟩ := Mapped.of_after_eq_some hphys
    obtain ⟨addr, haddr, rfl⟩ := List.mem_map.mp ha
    exact ⟨addr, haddr, (KernSpace.div_of_devicePage hx (hlt addr haddr) hpage).symm, rfl⟩
  . intro hnone addr haddr hdiv
    have hsome := Mapped.after_ne_none (List.mem_map_of_mem (f := deviceMap arch) haddr)
    have hpage : alignPageDown (deviceMap arch addr).1 = devicePage arch x := KernSpace.devicePage_of_div hdiv
    rw [hpage] at hsome
    exact hsome hnone

theorem Exact.translate_deviceAddr (h : Exact start pages (Mapped.after (addrs.map (deviceMap arch))) b)
    (hlt : ∀ addr ∈ addrs, addr < arch.physMemBase) (hx : x < arch.physMemBase) (y : Nat)
    : b.translate (deviceAddr arch x) = some y ↔ y = x ∧ ∃ addr ∈ addrs, addr / pageSize = x / pageSize := by
  have hcanonical : (deviceAddr arch x).Canonical := (allowed_deviceAddr (b := b) hx).1
  have hown : Own arch (deviceAddr arch x).path := by
    rw [← VirtAddr.path_alignPageDown]
    exact own_devicePage hx
  have hentry := h.entry _ hcanonical hown
  have hroot : b.translate (deviceAddr arch x) = _ := Mmu.translate_eq_leaf h.linked hcanonical hown
  obtain ⟨hmapped, hunmapped⟩ := after_devicePage hlt hx
  rw [hroot, hentry]
  rw [devicePage] at hmapped hunmapped
  cases hafter : Mapped.after (addrs.map (deviceMap arch)) (alignPageDown (deviceAddr arch x)) with
  | none =>
    have hno := hunmapped hafter
    simp only [Option.map_none, Option.bind_none, reduceCtorEq, false_iff]
    rintro ⟨_, addr, haddr, hdiv⟩
    exact hno addr haddr hdiv
  | some phys =>
    obtain ⟨addr, haddr, hdiv, rfl⟩ := hmapped phys hafter
    rw [Option.map_some, Option.bind_some, KernSpace.last_device (hlt addr haddr), toNat_deviceAddr_mod, hdiv,
      Nat.div_add_mod', Option.some.injEq]
    constructor
    . rintro rfl
      exact ⟨rfl, addr, haddr, hdiv⟩
    . rintro ⟨rfl, _⟩
      rfl

end BootPageTable

namespace DevProber

-- All addresses that are given to `BootPageTable::map`.
def allAddrs (as : List (DevProber × FdtNode)) : List Nat := as.flatMap fun a => a.1.addrs a.2

theorem exists_mem_allAddrs {as : List (DevProber × FdtNode)} {x : Nat}
    : (∃ addr ∈ allAddrs as, addr / pageSize = x / pageSize) ↔ ∃ a ∈ as, a.1.Window a.2 x := by
  simp only [allAddrs, List.mem_flatMap, Window]
  constructor
  . rintro ⟨addr, ⟨a, ha, haddr⟩, hdiv⟩
    exact ⟨a, ha, addr, haddr, hdiv⟩
  . rintro ⟨a, ha, addr, haddr, hdiv⟩
    exact ⟨addr, ⟨a, ha, haddr⟩, hdiv⟩

end DevProber

open DevProber

section Exec

variable {s s' : DevState arch} {sort : SortUnstable (@ExclusiveIntervals.byPosAndDelta arch.bits)}
  {kernelEnd : VirtAddr arch} {as : List (DevProber × FdtNode)} {root : PhysFrame arch} {mem : Memory arch}
  {heap : List (PhysFrame arch)}

theorem DevState.maps_of_exec (hexec : exec (DevState.probe sort kernelEnd) s as = .next s')
    : s.bootTable.mapAll (allAddrs as) = .next s'.bootTable := by
  induction hexec using exec_induction with
  | nil => rfl
  | cons hprobe _ ih =>
    rw [allAddrs, List.flatMap_cons, BootPageTable.mapAll_append (probe_iff.mp hprobe).maps]
    exact ih

theorem DevState.exact_of_exec (hpages : (root :: heap).Nodup) (hmem : ∀ page ∈ heap, page.addr.InMem)
    (hstart : s.bootTable = (BootPageTable.zeroed root mem heap).init)
    (hlt : ∀ a ∈ as, ∀ addr ∈ a.1.addrs a.2, addr < arch.physMemBase)
    (hexec : exec (DevState.probe sort kernelEnd) s as = .next s')
    : BootPageTable.Exact (BootPageTable.zeroed root mem heap).init heap
        (BootPageTable.Mapped.after ((allAddrs as).map (BootPageTable.deviceMap arch))) s'.bootTable := by
  have hmap := maps_of_exec hexec
  rw [hstart] at hmap
  apply (BootPageTable.exact_init root mem heap).mapAll hpages hmem _ hmap
  intro addr haddr
  obtain ⟨a, ha, haddr⟩ := List.mem_flatMap.mp haddr
  exact hlt a ha addr haddr

/--
While the devices are probed, a virtual address of a device leads to the device with this address, once the page
has been mapped. Everything else is translated as before, in the memory by the direct map.
-/
structure DevState.Translates (as : List (DevProber × FdtNode)) (s s' : DevState arch) : Prop where
  device : ∀ x < arch.physMemBase, ∀ y,
    s'.bootTable.translate (deviceAddr arch x) = some y ↔ y = x ∧ ∃ a ∈ as, a.1.Window a.2 x
  memory : ∀ p : PhysAddr arch, p.InMem → s'.bootTable.translate p.toVirt = some p.toNat
  other : ∀ addr, (∀ a ∈ as, ∀ phys ∈ a.1.addrs a.2, alignPageDown addr ≠ devicePage arch phys) →
    s'.bootTable.translate addr = s.bootTable.translate addr

theorem DevState.translates_of_exact
    (hexact : BootPageTable.Exact (BootPageTable.zeroed root mem heap).init heap
      (BootPageTable.Mapped.after ((allAddrs as).map (BootPageTable.deviceMap arch))) s'.bootTable)
    (hstart : s.bootTable = (BootPageTable.zeroed root mem heap).init)
    (hlt : ∀ a ∈ as, ∀ addr ∈ a.1.addrs a.2, addr < arch.physMemBase)
    : Translates as s s' := by
  have hltAll : ∀ addr ∈ allAddrs as, addr < arch.physMemBase := by
    intro addr haddr
    obtain ⟨a, ha, haddr⟩ := List.mem_flatMap.mp haddr
    exact hlt a ha addr haddr
  constructor
  case device =>
    intro x hx y
    rw [hexact.translate_deviceAddr hltAll hx, exists_mem_allAddrs]
  case memory =>
    intro p hp
    exact hexact.directMapped.translate hp
  case other =>
    intro addr hne
    have hnone : BootPageTable.Mapped.after ((allAddrs as).map (BootPageTable.deviceMap arch))
        (alignPageDown addr) = none := by
      by_contra hsome
      obtain ⟨_, hphys⟩ := Option.ne_none_iff_exists'.mp hsome
      obtain ⟨_, hmap, hpage, _⟩ := BootPageTable.Mapped.of_after_eq_some hphys
      obtain ⟨phys, hphys, rfl⟩ := List.mem_map.mp hmap
      obtain ⟨a, ha, hphys⟩ := List.mem_flatMap.mp hphys
      exact hne a ha phys hphys hpage
    rw [hexact.translate_eq (BootPageTable.exact_init root mem heap) (BootPageTable.unlinked_init root mem heap),
      hnone, hstart]

theorem DevState.translates_of_exec (hpages : (root :: heap).Nodup) (hmem : ∀ page ∈ heap, page.addr.InMem)
    (hstart : s.bootTable = (BootPageTable.zeroed root mem heap).init)
    (hlt : ∀ a ∈ as, ∀ addr ∈ a.1.addrs a.2, addr < arch.physMemBase)
    (hexec : exec (DevState.probe sort kernelEnd) s as = .next s')
    : Translates as s s' :=
  translates_of_exact (exact_of_exec hpages hmem hstart hlt hexec) hstart hlt

end Exec

theorem regAt_deviceAddr (arch : Arch) (x offset : Nat)
    : regAt (deviceAddr arch x) offset = deviceAddr arch (x + offset) := by
  rw [regAt, deviceAddr, deviceAddr, ← BitVec.ofNat_add]
  congr 1
  omega

theorem window_lt {prober : DevProber} {node : FdtNode} {x : Nat}
    (hlt : ∀ addr ∈ prober.addrs node, addr < arch.physMemBase) (h : prober.Window node x)
    : x < arch.physMemBase := by
  obtain ⟨addr, haddr, hdiv⟩ := h
  have haddr := hlt addr haddr
  rw [pageSize] at hdiv
  cases arch with
  | riscv32 | riscv64 =>
    simp only [Arch.physMemBase] at haddr ⊢
    omega

theorem plic_window_iff {node : FdtNode} {startingAddress size offset : Nat}
    (hregion : node.region = some (startingAddress, size))
    : DevProber.plic.Window node (startingAddress + offset) ↔
        (startingAddress % pageSize + offset) / pageSize < size / pageSize := by
  simp only [Window, DevProber.addrs, hregion, Driver.addrs, List.mem_map, List.mem_range, pageSize]
  constructor
  . rintro ⟨_, ⟨i, hi, rfl⟩, hdiv⟩
    omega
  . intro hlt
    exact ⟨_, ⟨_, hlt, rfl⟩, by omega⟩

theorem DevState.Translates.congr {as bs : List (DevProber × FdtNode)} {s s' : DevState arch}
    (h : Translates as s s') (hmem : ∀ a, a ∈ as ↔ a ∈ bs)
    : Translates bs s s' := by
  constructor
  case device =>
    intro x hx y
    rw [h.device x hx y]
    simp only [hmem]
  case memory => exact h.memory
  case other =>
    intro addr hne
    exact h.other addr fun a ha => hne a ((hmem a).mp ha)

end Jrinx
