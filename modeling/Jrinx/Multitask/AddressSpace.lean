import Jrinx.Multitask.OwnFrame

/-!
This module contains all that the hardware translates in the address space of the kernel, while stacks of
executors are created and dropped: the direct map, the devices in the upper half and the stacks. Below of a
stack there is a guard.
-/

namespace Jrinx

open Std

variable {arch : Arch}

namespace KernSpace

open BootPageTable (Own Upper)

variable {s s' s₁ : KernSpace arch} {devices : List Device}

/--
A page that is in none of the stacks. The calls of the allocator leave it alone.
-/
structure Elsewhere (arch : Arch) (page : VirtAddr arch) : Prop where
  aligned : alignPageDown page = page
  canonical : page.Canonical
  own : Own arch page.path
  ne : ∀ x, IsPage arch x → page ≠ stackPage arch x

section Elsewhere

variable {page : VirtAddr arch}

theorem Elsewhere.changes (h : Elsewhere arch page) {x : Nat} (hx : IsPage arch x)
    (hchanges : Changes (stackPage arch x) s s')
    : s'.table.entry page.path page.leaf = s.table.entry page.path page.leaf := by
  apply hchanges.entry _ _ h.own (VirtAddr.length_path _)
  rintro ⟨hpath, hleaf⟩
  obtain ⟨_, hpage⟩ := hx.stackPage
  apply h.ne x hx
  rw [← h.aligned, ← hpage.aligned]
  apply VirtAddr.alignPageDown_eq_of_indexes h.canonical hpage.canonical
  rw [VirtAddr.indexes_eq_path_leaf, VirtAddr.indexes_eq_path_leaf, hpath, hleaf]

theorem Elsewhere.entry_of_run (h : Elsewhere arch page) {a : StackAllocator} {calls : List StackCall}
    (hwf : s.Wf)
    (hrun : Run (StackAllocator.step callbacks) (StackAllocator.uniform executorStackSize)
      (executorStackAllocator arch, s) calls (a, s₁))
    : s₁.table.entry page.path page.leaf = s.table.entry page.path page.leaf := by
  have hkeeps : StackAllocator.Keeps callbacks
      (arch.executorStackRegion.addr, arch.executorStackRegion.len) executorStackSize executorStackSize
      (fun s' : KernSpace arch =>
        s'.Wf ∧ s'.table.entry page.path page.leaf = s.table.entry page.path page.leaf) := by
    intro lo hlo x hx s' h'
    have hpage : IsPage arch x := ⟨lo, hlo, hx⟩
    have hmap := h'.1.map hpage.not_direct hpage.own
    have hunmap := h'.1.unmap hpage.not_direct hpage.own
    exact ⟨⟨hmap.wf, (h.changes hpage hmap).trans h'.2⟩, ⟨hunmap.wf, (h.changes hpage hunmap).trans h'.2⟩⟩
  exact (StackAllocator.uniform_of_run hkeeps nextMultipleOf_executorStackSize
    nextMultipleOf_executorStackSize executorStackSize_le ⟨hwf, rfl⟩ hrun).2.2

end Elsewhere

theorem Boots.backed (hboots : s.Boots devices) (hbelow : ∀ d ∈ devices, d.region.BelowMemory arch)
    (hclear : ∀ d ∈ devices, ∀ addr ∈ d.addrs, Device.ClearOfStacks arch addr)
    (hmem : ∀ f ∈ s.bootPages, f.addr.InMem) {a : StackAllocator} {calls : List StackCall}
    (hrun : Run (StackAllocator.step callbacks) (StackAllocator.uniform executorStackSize)
      (executorStackAllocator arch, s) calls (a, s₁))
    : s₁.Stacked ∧ s₁.Huge := by
  obtain ⟨hstacked, hnone⟩ := hboots.stacked hbelow hclear hmem
  exact (StackAllocator.backed_of_run backs_huge (by decide) nextMultipleOf_executorStackSize
    nextMultipleOf_executorStackSize (by decide) executorStackSize_le ⟨hstacked, hboots.huge hbelow hmem⟩
    hnone hrun).inv

theorem Sole.translate_eq (h : s.Sole) {addr page : VirtAddr arch} (hpage : alignPageDown addr = page)
    (hcanonical : page.Canonical) (hown : Own arch page.path)
    : Mmu.translate s.table.mem s.table.root addr =
        (s.table.entry page.path page.leaf).bind (Mmu.last addr 12) := by
  have hpath : page.path = addr.path := by
    rw [← hpage, VirtAddr.path_alignPageDown]
  have hleaf : page.leaf = addr.leaf := by
    rw [← hpage, VirtAddr.leaf_alignPageDown]
  have hcanonical' : addr.Canonical := by
    apply BootPageTable.canonical_of_alignPageDown
    rwa [hpage]
  rw [hpath] at hown
  rw [PageTable.entry_eq_leaf, h.root, Mmu.translate_eq_leaf h.linked hcanonical' hown, hpath, hleaf]

section Guard

/--
The address is in the guard below of a stack.
-/
def InGuard (arch : Arch) (x : Nat) : Prop :=
  ∃ lo, IsExecutorStack arch lo ∧ lo - executorStackSize ≤ x ∧ x < lo

structure GuardPage (arch : Arch) (page : VirtAddr arch) : Prop where
  aligned : alignPageDown page = page
  inGuard : InGuard arch page.toNat
  canonical : page.Canonical
  own : Own arch page.path

theorem guardPage_of_inGuard {x : Nat} (h : InGuard arch x)
    (hdirect : ¬ VirtAddr.InDirectMap (BitVec.ofNat arch.bits x))
    : GuardPage arch (stackPage arch x) := by
  obtain ⟨lo, hlo, hle, hlt⟩ := h
  obtain ⟨n, hn, hfits⟩ := isExecutorStack_iff.mp hlo
  have htoNat : (stackPage arch x).toNat = x % 2 ^ arch.bits / 4096 * 4096 := by
    rw [stackPage, toNat_alignPageDown, BitVec.toNat_ofNat]
  rw [VirtAddr.InDirectMap, BitVec.le_def, BitVec.lt_def, PhysAddr.toNat_toVirt, PhysAddr.toNat_toVirt,
    BitVec.toNat_ofNat, BitVec.toNat_ofNat, BitVec.toNat_ofNat] at hdirect
  have hsize : executorStackSize = 0x400000 := rfl
  rw [hsize] at hle
  refine ⟨alignPageDown_alignPageDown, ⟨lo, hlo, ?_⟩, .inr ?_, BootPageTable.own_of_head ?_⟩
  . rw [htoNat, hsize]
    cases arch with
    | riscv32 =>
      have hn' : lo = 0xE0000000 + n * 0x800000 := hn
      have hfits' : n * 0x800000 ≤ 0x10000000 := hfits
      have hpage : lo - 0x400000 ≤ x % 2 ^ 32 / 4096 * 4096 ∧ x % 2 ^ 32 / 4096 * 4096 < lo := by omega
      exact hpage
    | riscv64 =>
      have hn' : lo = 0xFFFFFFE000000000 + n * 0x800000 := hn
      have hfits' : n * 0x800000 ≤ 0x1F00000000 := hfits
      have hpage : lo - 0x400000 ≤ x % 2 ^ 64 / 4096 * 4096 ∧ x % 2 ^ 64 / 4096 * 4096 < lo := by omega
      exact hpage
  . rw [htoNat]
    cases arch with
    | riscv32 =>
      have hn' : lo = 0xE0000000 + n * 0x800000 := hn
      have hfits' : n * 0x800000 ≤ 0x10000000 := hfits
      have hpage : 0x80000000 ≤ x % 2 ^ 32 / 4096 * 4096 := by omega
      exact hpage
    | riscv64 =>
      have hn' : lo = 0xFFFFFFE000000000 + n * 0x800000 := hn
      have hfits' : n * 0x800000 ≤ 0x1F00000000 := hfits
      have hpage : 0xFFFFFFC000000000 ≤ x % 2 ^ 64 / 4096 * 4096 := by omega
      exact hpage
  . cases arch with
    | riscv32 =>
      have hn' : lo = 0xE0000000 + n * 0x800000 := hn
      have hfits' : n * 0x800000 ≤ 0x10000000 := hfits
      rw [VirtAddr.head_indexes32, htoNat]
      generalize hslot : x % 2 ^ Arch.bits .riscv32 / 4096 * 4096 / 2 ^ 22 % 1024 = slot
      have hslot' : x % 2 ^ 32 / 4096 * 4096 / 2 ^ 22 % 1024 = slot := hslot
      have hrange : 895 ≤ slot := by omega
      rintro ⟨_, hlt⟩
      omega
    | riscv64 =>
      have hn' : lo = 0xFFFFFFE000000000 + n * 0x800000 := hn
      have hfits' : n * 0x800000 ≤ 0x1F00000000 := hfits
      have hdirect' : ¬ ((0x80000000 % 2 ^ 64 + 0xFFFFFFC000000000) % 2 ^ 64 ≤ x % 2 ^ 64 ∧
          x % 2 ^ 64 < (0x2000000000 % 2 ^ 64 + 0xFFFFFFC000000000) % 2 ^ 64) := hdirect
      rw [VirtAddr.head_indexes64, htoNat]
      generalize hslot : x % 2 ^ Arch.bits .riscv64 / 4096 * 4096 / 2 ^ 30 % 512 = slot
      have hslot' : x % 2 ^ 64 / 4096 * 4096 / 2 ^ 30 % 512 = slot := hslot
      have hrange : 384 ≤ slot := by omega
      rintro (rfl | ⟨_, hlt⟩)
      . omega
      . omega

theorem GuardPage.ne_stackPage {page : VirtAddr arch} (h : GuardPage arch page) {addr : Nat}
    (haddr : IsPage arch addr)
    : page ≠ stackPage arch addr := by
  intro heq
  obtain ⟨lo, hlo, hle, hlt⟩ := h.inGuard
  rw [heq, toNat_stackPage haddr] at hle hlt
  obtain ⟨lo', hlo', hmem⟩ := haddr
  obtain ⟨n, hn, _⟩ := isExecutorStack_iff.mp hlo
  obtain ⟨n', hn', _⟩ := isExecutorStack_iff.mp hlo'
  obtain ⟨i, hi, rfl⟩ := StackAllocator.mem_pages_iff.mp hmem
  have hi' : i < 1024 := hi
  have hsize : executorStackSize = 0x400000 := rfl
  rw [hsize] at hle
  simp only [pageSize] at hle hlt
  cases arch with
  | riscv32 =>
    have hn₁ : lo = 0xE0000000 + n * 0x800000 := hn
    have hn₂ : lo' = 0xE0000000 + n' * 0x800000 := hn'
    omega
  | riscv64 =>
    have hn₁ : lo = 0xFFFFFFE000000000 + n * 0x800000 := hn
    have hn₂ : lo' = 0xFFFFFFE000000000 + n' * 0x800000 := hn'
    omega

/--
In every run, no address of a guard is translated. The guards outside of the direct map are meant: the first
stack of the larger machine has its guard in there.
-/
theorem translate_guard_of_run {a : StackAllocator} {calls : List StackCall} {x : Nat}
    (hboots : s.Boots devices) (hbelow : ∀ d ∈ devices, d.region.BelowMemory arch)
    (hclear : ∀ d ∈ devices, ∀ addr ∈ d.addrs, Device.ClearOfStacks arch addr)
    (hguards : ∀ d ∈ devices, ∀ addr ∈ d.addrs, ¬ InGuard arch (devicePage arch addr).toNat)
    (hmem : ∀ f ∈ s.bootPages, f.addr.InMem)
    (hrun : Run (StackAllocator.step callbacks) (StackAllocator.uniform executorStackSize)
      (executorStackAllocator arch, s) calls (a, s₁))
    (hx : InGuard arch x) (hdirect : ¬ VirtAddr.InDirectMap (BitVec.ofNat arch.bits x))
    : Mmu.translate s₁.table.mem s₁.table.root (BitVec.ofNat arch.bits x) = none := by
  have hguard := guardPage_of_inGuard hx hdirect
  obtain ⟨hstacked, _⟩ := hboots.backed hbelow hclear hmem hrun
  have helsewhere : Elsewhere arch (stackPage arch x) :=
    ⟨hguard.aligned, hguard.canonical, hguard.own, fun _ => hguard.ne_stackPage⟩
  have hpage : alignPageDown (BitVec.ofNat arch.bits x) = stackPage arch x := rfl
  rw [hstacked.translate_eq hpage hguard.canonical hguard.own,
    helsewhere.entry_of_run (hboots.wf hbelow) hrun, hboots.entry_none hbelow hmem hguard.aligned
      hguard.canonical hguard.own, Option.bind_none]
  intro d hd addr haddr heq
  apply hguards d hd addr haddr
  rw [← heq]
  exact hguard.inGuard

theorem translate_guard_secondStack
    : ∃ t a s, (firstSpace t).Boots [Device.uart] ∧
        (executorStackAllocator .riscv64).allocate callbacks executorStackSize (firstSpace t) =
          (.ok 0xFFFFFFE000400000, a, s) ∧
        Mmu.translate s.table.mem s.table.root 0xFFFFFFE000400000 = none := by
  obtain ⟨t, a, s, hboots, hallocate⟩ := exists_firstStack
  refine ⟨t, a, s, hboots, hallocate, ?_⟩
  apply translate_guard_of_run (x := 0xFFFFFFE000400000) hboots (by decide) (by decide) ?_ inMem_firstSpace
    (run_firstStack hallocate)
  . exact ⟨0xFFFFFFE000800000, isExecutorStack_iff.mpr ⟨1, rfl, by decide⟩, by decide, by decide⟩
  . decide
  . intro d hd addr haddr
    rw [List.mem_singleton] at hd
    subst hd
    obtain rfl : addr = 0x10000000 := List.mem_singleton.mp haddr
    rintro ⟨lo, hlo, hle, hlt⟩
    obtain ⟨n, hn, hfits⟩ := isExecutorStack_iff.mp hlo
    have hpage : (devicePage .riscv64 0x10000000).toNat = 0xFFFFFFFF10000000 := by decide
    have hn' : lo = 0xFFFFFFE000000000 + n * 0x800000 := hn
    have hfits' : n * 0x800000 ≤ 0x1F00000000 := hfits
    rw [hpage] at hlt
    omega

end Guard

section Reaches

/--
The ways in which the kernel gets at a physical address.
-/
inductive Reaches (devices : List Device) (s : KernSpace arch) (addr : VirtAddr arch) : Nat → Prop where
  | direct {p : PhysAddr arch}
    : p.InMem → p.toVirt = addr → Reaches devices s addr p.toNat
  | device {d : Device} {phys : Nat}
    : d ∈ devices → phys ∈ d.addrs → alignPageDown addr = devicePage arch phys → Upper addr →
        Reaches devices s addr (phys / pageSize * pageSize + addr.toNat % pageSize)
  | stack {x : Nat} {frame : PhysFrame arch}
    : IsPage arch x → alignPageDown addr = stackPage arch x → OwnFrame s (stackPage arch x) frame →
        Reaches devices s addr (frame.addr.toNat + addr.toNat % pageSize)

theorem upper_alignPageDown {addr : VirtAddr arch} : Upper (alignPageDown addr) ↔ Upper addr := by
  rw [Upper, Upper, toNat_alignPageDown]
  cases arch with
  | riscv32 | riscv64 =>
    simp only [Arch.bits]
    omega

theorem last_device {phys : Nat} (hlt : phys < arch.physMemBase) (addr : VirtAddr arch)
    : Mmu.last addr 12 (.set (BitVec.ofNat arch.bits phys) BootPageTable.perm) =
        some (phys / pageSize * pageSize + addr.toNat % pageSize) := by
  have hfits : phys % 2 ^ arch.bits = phys := by
    apply Nat.mod_eq_of_lt
    apply Nat.lt_of_lt_of_le hlt
    cases arch <;> decide
  have hframe : (alignPageDown (BitVec.ofNat arch.bits phys)).toNat = phys / pageSize * pageSize := by
    rw [toNat_alignPageDown, BitVec.toNat_ofNat, hfits]
    rfl
  have hbits : phys / pageSize * pageSize < 2 ^ arch.physBits := by
    apply Nat.lt_of_le_of_lt (Nat.div_mul_le_self _ _)
    apply Nat.lt_of_lt_of_le hlt
    cases arch <;> decide
  rw [Mmu.last_set, Mmu.inPage, hframe]
  exact if_pos hbits

theorem div_of_devicePage {phys phys' : Nat} (hlt : phys < arch.physMemBase) (hlt' : phys' < arch.physMemBase)
    (h : devicePage arch phys = devicePage arch phys')
    : phys / pageSize = phys' / pageSize := by
  have htoNat := congrArg BitVec.toNat h
  rw [toNat_devicePage, toNat_devicePage] at htoNat
  cases arch with
  | riscv32 =>
    have hlt₁ : phys < 0x80000000 := hlt
    have hlt₂ : phys' < 0x80000000 := hlt'
    have htoNat' : (phys + 0xD0000000) % 2 ^ 32 / 4096 * 4096 = (phys' + 0xD0000000) % 2 ^ 32 / 4096 * 4096 :=
      htoNat
    simp only [pageSize]
    omega
  | riscv64 =>
    have hlt₁ : phys < 0x80000000 := hlt
    have hlt₂ : phys' < 0x80000000 := hlt'
    have htoNat' : (phys + 0xFFFFFFFF00000000) % 2 ^ 64 / 4096 * 4096 =
        (phys' + 0xFFFFFFFF00000000) % 2 ^ 64 / 4096 * 4096 := htoNat
    simp only [pageSize]
    omega

theorem elsewhere_devicePage {phys : Nat} (hlt : phys < arch.physMemBase)
    (hclear : Device.ClearOfStacks arch phys)
    : Elsewhere arch (devicePage arch phys) :=
  ⟨alignPageDown_alignPageDown, canonical_devicePage hlt, own_devicePage hlt,
    fun _ hx => (hx.ne_devicePage hlt hclear).symm⟩

theorem Boots.entry_device (h : s.Boots devices) (hbelow : ∀ d ∈ devices, d.region.BelowMemory arch)
    (hmem : ∀ f ∈ s.bootPages, f.addr.InMem) {d : Device} {phys : Nat} (hd : d ∈ devices)
    (hphys : phys ∈ d.addrs) (hupper : Upper (devicePage arch phys)) (addr : VirtAddr arch)
    : (s.table.entry (devicePage arch phys).path (devicePage arch phys).leaf).bind (Mmu.last addr 12) =
        some (phys / pageSize * pageSize + addr.toNat % pageSize) := by
  have hlt := d.lt_of_mem_addrs (hbelow d hd) hphys
  have hcall : BootPageTable.deviceMap arch phys ∈ BootPageTable.probeMaps arch devices :=
    BootPageTable.mem_probeMaps.mpr ⟨d, hd, phys, hphys, rfl⟩
  obtain ⟨phys', hafter⟩ := Option.ne_none_iff_exists'.mp (BootPageTable.Mapped.after_ne_none hcall)
  obtain ⟨_, ha, hpage, rfl⟩ := BootPageTable.Mapped.of_after_eq_some hafter
  obtain ⟨d', hd', phys', hphys', rfl⟩ := BootPageTable.mem_probeMaps.mp ha
  have hlt' := d'.lt_of_mem_addrs (hbelow d' hd') hphys'
  have hafter' : BootPageTable.Mapped.after (BootPageTable.probeMaps arch devices) (devicePage arch phys) =
      some (BitVec.ofNat arch.bits phys') := hafter
  have haligned : alignPageDown (devicePage arch phys) = devicePage arch phys := alignPageDown_alignPageDown
  rw [h.entry hbelow hmem haligned (canonical_devicePage hlt) (own_devicePage hlt),
    if_pos hupper, hafter', Option.map_some, Option.bind_some, last_device hlt',
    div_of_devicePage hlt hlt' hpage]

theorem Huge.translate_iff (h : s.Huge) {addr : VirtAddr arch} (hcanonical : addr.Canonical)
    (hown : ¬ Own arch addr.path) (pa : Nat)
    : Mmu.translate s.table.mem s.table.root addr = some pa ↔
        ∃ p : PhysAddr arch, p.InMem ∧ p.toVirt = addr ∧ p.toNat = pa := by
  obtain ⟨shift, shifts, hshifts, hpath⟩ := BootPageTable.exists_shift arch
  have hshift : shift ∈ arch.indexShifts.head? := by
    rw [hshifts]
    rfl
  have hremapped : BootPageTable.Remapped arch (Mmu.index addr shift) := by
    rw [BootPageTable.own_path_iff (hpath addr)] at hown
    exact not_not.mp hown
  constructor
  . intro htranslate
    rcases BootPageTable.lower_or_inDirectMap hcanonical hshift hremapped with hlower | hdirect
    . have hclr := h.lower _ hremapped hlower
      rw [Mmu.translate, if_pos hcanonical, hshifts, Mmu.walk_none] at htranslate
      . simp at htranslate
      . rw [Mmu.table_root, hclr, PageTable.next_clr]
    . obtain ⟨p, hp, rfl⟩ := BootPageTable.inDirectMap_iff.mp hdirect
      rw [h.direct.translate hp, Option.some.injEq] at htranslate
      exact ⟨p, hp, rfl, htranslate⟩
  . rintro ⟨p, hp, rfl, rfl⟩
    exact h.direct.translate hp

theorem Stacked.reaches {a : StackAllocator} {calls : List StackCall} {addr : VirtAddr arch} {pa : Nat}
    (hstacked : s₁.Stacked) (hboots : s.Boots devices) (hbelow : ∀ d ∈ devices, d.region.BelowMemory arch)
    (hmem : ∀ f ∈ s.bootPages, f.addr.InMem)
    (hrun : Run (StackAllocator.step callbacks) (StackAllocator.uniform executorStackSize)
      (executorStackAllocator arch, s) calls (a, s₁))
    (hcanonical : addr.Canonical) (hown : Own arch addr.path)
    (htranslate : Mmu.translate s₁.table.mem s₁.table.root addr = some pa)
    : Reaches devices s₁ addr pa := by
  obtain ⟨page, hpage⟩ : ∃ page : VirtAddr arch, alignPageDown addr = page := ⟨_, rfl⟩
  have hcanonical' : page.Canonical := by
    rw [← hpage]
    exact VirtAddr.canonical_alignPageDown hcanonical
  have hown' : Own arch page.path := by
    rw [← hpage, VirtAddr.path_alignPageDown]
    exact hown
  have haligned : alignPageDown page = page := by
    rw [← hpage, alignPageDown_alignPageDown]
  have hentry := htranslate
  rw [hstacked.translate_eq hpage hcanonical' hown'] at hentry
  by_cases hx : ∃ x, IsPage arch x ∧ page = stackPage arch x
  . obtain ⟨x, hx, rfl⟩ := hx
    cases hview : s₁.view x with
    | none =>
      rw [(hstacked.view_eq_none_iff hx).mp hview, Option.bind_none] at hentry
      simp at hentry
    | some frame =>
      have hframe := hstacked.ownFrame hx hview
      rw [hframe.translate addr hpage, Option.some.injEq] at htranslate
      subst htranslate
      exact .stack hx hpage hframe
  . -- the entry is still the one from the start
    have helsewhere : Elsewhere arch page :=
      ⟨haligned, hcanonical', hown', fun x hpage' heq => hx ⟨x, hpage', heq⟩⟩
    rw [helsewhere.entry_of_run (hboots.wf hbelow) hrun] at hentry
    have hstart := hboots.entry hbelow hmem haligned hcanonical' hown'
    split at hstart
    next hupper =>
      cases hafter : BootPageTable.Mapped.after (BootPageTable.probeMaps arch devices) page with
      | none =>
        rw [hstart, hafter] at hentry
        simp at hentry
      | some phys =>
        obtain ⟨_, ha, hdevice, _⟩ := BootPageTable.Mapped.of_after_eq_some hafter
        obtain ⟨d, hd, phys, hphys, rfl⟩ := BootPageTable.mem_probeMaps.mp ha
        have hdevice' : page = devicePage arch phys := hdevice
        subst hdevice'
        rw [hboots.entry_device hbelow hmem hd hphys hupper, Option.some.injEq] at hentry
        subst hentry
        rw [← hpage, upper_alignPageDown] at hupper
        exact .device hd hphys hpage hupper
    next =>
      rw [hstart, Option.bind_none] at hentry
      simp at hentry

section Run

variable {a : StackAllocator} {calls : List StackCall} {addr addr' : VirtAddr arch} {pa : Nat}

theorem Boots.reaches (hboots : s.Boots devices) (hbelow : ∀ d ∈ devices, d.region.BelowMemory arch)
    (hclear : ∀ d ∈ devices, ∀ addr ∈ d.addrs, Device.ClearOfStacks arch addr)
    (hmem : ∀ f ∈ s.bootPages, f.addr.InMem)
    (hrun : Run (StackAllocator.step callbacks) (StackAllocator.uniform executorStackSize)
      (executorStackAllocator arch, s) calls (a, s₁))
    (htranslate : Mmu.translate s₁.table.mem s₁.table.root addr = some pa)
    : Reaches devices s₁ addr pa := by
  obtain ⟨hstacked, hhuge⟩ := hboots.backed hbelow hclear hmem hrun
  by_cases hcanonical : addr.Canonical
  . by_cases hown : Own arch addr.path
    . exact hstacked.reaches hboots hbelow hmem hrun hcanonical hown htranslate
    . obtain ⟨p, hp, hvirt, rfl⟩ := (hhuge.translate_iff hcanonical hown pa).mp htranslate
      exact .direct hp hvirt
  . rw [Mmu.translate, if_neg hcanonical] at htranslate
    simp at htranslate

theorem Reaches.translate (hboots : s.Boots devices) (hbelow : ∀ d ∈ devices, d.region.BelowMemory arch)
    (hclear : ∀ d ∈ devices, ∀ addr ∈ d.addrs, Device.ClearOfStacks arch addr)
    (hmem : ∀ f ∈ s.bootPages, f.addr.InMem)
    (hrun : Run (StackAllocator.step callbacks) (StackAllocator.uniform executorStackSize)
      (executorStackAllocator arch, s) calls (a, s₁))
    (hreaches : Reaches devices s₁ addr pa)
    : Mmu.translate s₁.table.mem s₁.table.root addr = some pa := by
  obtain ⟨hstacked, hhuge⟩ := hboots.backed hbelow hclear hmem hrun
  cases hreaches with
  | direct hp hvirt =>
    rw [← hvirt]
    exact hhuge.direct.translate hp
  | @device d phys hd hphys hpage hupper =>
    have hlt := d.lt_of_mem_addrs (hbelow d hd) hphys
    have helsewhere := elsewhere_devicePage hlt (hclear d hd phys hphys)
    rw [← upper_alignPageDown, hpage] at hupper
    rw [hstacked.translate_eq hpage helsewhere.canonical helsewhere.own,
      helsewhere.entry_of_run (hboots.wf hbelow) hrun]
    exact hboots.entry_device hbelow hmem hd hphys hupper addr
  | stack _ hpage hframe => exact hframe.translate addr hpage

/--
In every run of the allocator of the stacks, the hardware translates an address exactly if it is in the direct
map, in a page of a device in the upper half, or in a page of a stack that has a frame. Everything else faults.
-/
theorem translate_iff_of_run
    (hboots : s.Boots devices) (hbelow : ∀ d ∈ devices, d.region.BelowMemory arch)
    (hclear : ∀ d ∈ devices, ∀ addr ∈ d.addrs, Device.ClearOfStacks arch addr)
    (hmem : ∀ f ∈ s.bootPages, f.addr.InMem)
    (hrun : Run (StackAllocator.step callbacks) (StackAllocator.uniform executorStackSize)
      (executorStackAllocator arch, s) calls (a, s₁))
    (addr : VirtAddr arch) (pa : Nat)
    : Mmu.translate s₁.table.mem s₁.table.root addr = some pa ↔ Reaches devices s₁ addr pa :=
  ⟨hboots.reaches hbelow hclear hmem hrun, Reaches.translate hboots hbelow hclear hmem hrun⟩

theorem reaches_uart {s : KernSpace .riscv64}
    : Reaches [Device.uart] s 0xFFFFFFFF10000005 0x10000005 := by
  have hphys : 0x10000000 ∈ Device.uart.addrs := by decide
  exact .device (List.mem_singleton_self Device.uart) hphys (by decide) (by decide)

theorem translate_uart_firstStack
    : ∃ t a s, (firstSpace t).Boots [Device.uart] ∧
        (executorStackAllocator .riscv64).allocate callbacks executorStackSize (firstSpace t) =
          (.ok 0xFFFFFFE000400000, a, s) ∧
        Mmu.translate s.table.mem s.table.root 0xFFFFFFFF10000005 = some 0x10000005 := by
  obtain ⟨t, a, s, hboots, hallocate⟩ := exists_firstStack
  refine ⟨t, a, s, hboots, hallocate, ?_⟩
  have hrun := run_firstStack hallocate
  exact (translate_iff_of_run hboots (by decide) (by decide) inMem_firstSpace hrun _ _).mpr reaches_uart

theorem eq_of_alignPageDown (hpage : alignPageDown addr = alignPageDown addr')
    (hoffset : addr.toNat % pageSize = addr'.toNat % pageSize)
    : addr = addr' := by
  have htoNat := congrArg BitVec.toNat hpage
  rw [toNat_alignPageDown, toNat_alignPageDown] at htoNat
  apply BitVec.eq_of_toNat_eq
  simp only [pageSize] at hoffset
  omega

theorem devicePage_of_div {phys phys' : Nat} (h : phys / pageSize = phys' / pageSize)
    : devicePage arch phys = devicePage arch phys' := by
  apply BitVec.eq_of_toNat_eq
  rw [toNat_devicePage, toNat_devicePage]
  simp only [pageSize] at h
  cases arch with
  | riscv32 =>
    have hpage : (phys + 0xD0000000) % 2 ^ 32 / 4096 * 4096 = (phys' + 0xD0000000) % 2 ^ 32 / 4096 * 4096 := by
      omega
    exact hpage
  | riscv64 =>
    have hpage : (phys + 0xFFFFFFFF00000000) % 2 ^ 64 / 4096 * 4096 =
        (phys' + 0xFFFFFFFF00000000) % 2 ^ 64 / 4096 * 4096 := by omega
    exact hpage

theorem page_offset_inj {a b i j : Nat} (hi : i < pageSize) (hj : j < pageSize)
    (h : a * pageSize + i = b * pageSize + j)
    : a = b ∧ i = j := by
  simp only [pageSize] at *
  omega

theorem toNat_frame (frame : PhysFrame arch) : ∃ n, frame.addr.toNat = n * pageSize := by
  refine ⟨frame.addr.toNat / 4096, ?_⟩
  have haligned := congrArg BitVec.toNat frame.aligned
  rw [toNat_alignPageDown] at haligned
  exact haligned.symm

theorem device_ne_frame {phys : Nat} (hlt : phys < arch.physMemBase) {frame : PhysFrame arch}
    (hframe : frame.addr.InMem) {i j : Nat} (hi : i < pageSize)
    : phys / pageSize * pageSize + i ≠ frame.addr.toNat + j := by
  have hbase := hframe.1
  have hpages : arch.physMemBase % 4096 = 0 := by
    cases arch <;> rfl
  simp only [pageSize] at *
  omega

theorem Reaches.eq (hbelow : ∀ d ∈ devices, d.region.BelowMemory arch) (h : Reaches devices s addr pa)
    (h' : Reaches devices s addr' pa) (hdirect : ¬ addr.InDirectMap) (hdirect' : ¬ addr'.InDirectMap)
    : addr = addr' := by
  have hoffset (addr : VirtAddr arch) : addr.toNat % pageSize < pageSize := Nat.mod_lt _ (by decide)
  generalize hpa : pa = pa' at h'
  cases h with
  | direct hp hvirt => exact absurd (hvirt ▸ PhysAddr.inDirectMap_toVirt hp) hdirect
  | device hd hphys hpage _ =>
    cases h' with
    | direct hp hvirt => exact absurd (hvirt ▸ PhysAddr.inDirectMap_toVirt hp) hdirect'
    | device _ _ hpage' _ =>
      obtain ⟨hdiv, hmod⟩ := page_offset_inj (hoffset _) (hoffset _) hpa
      apply eq_of_alignPageDown _ hmod
      rw [hpage, hpage', devicePage_of_div hdiv]
    | stack _ _ hframe' =>
      exact absurd hpa (device_ne_frame (Device.lt_of_mem_addrs (hbelow _ hd) hphys) hframe'.inMem (hoffset _))
  | @stack x frame _ hpage hframe =>
    cases h' with
    | direct hp hvirt => exact absurd (hvirt ▸ PhysAddr.inDirectMap_toVirt hp) hdirect'
    | device hd hphys _ _ =>
      exact absurd hpa.symm
        (device_ne_frame (Device.lt_of_mem_addrs (hbelow _ hd) hphys) hframe.inMem (hoffset _))
    | @stack x' frame' _ hpage' hframe' =>
      obtain ⟨n, hn⟩ := toNat_frame frame
      obtain ⟨n', hn'⟩ := toNat_frame frame'
      rw [hn, hn'] at hpa
      obtain ⟨rfl, hmod⟩ := page_offset_inj (hoffset _) (hoffset _) hpa
      obtain rfl : frame = frame' := addr_inj (BitVec.eq_of_toNat_eq (hn.trans hn'.symm))
      -- the frame is held for one page only
      have hsame := (hframe'.held _).mp ((hframe.held _).mpr rfl)
      apply eq_of_alignPageDown _ hmod
      rw [hpage, hpage', hsame]

theorem translate_ne_of_run
    (hboots : s.Boots devices) (hbelow : ∀ d ∈ devices, d.region.BelowMemory arch)
    (hclear : ∀ d ∈ devices, ∀ addr ∈ d.addrs, Device.ClearOfStacks arch addr)
    (hmem : ∀ f ∈ s.bootPages, f.addr.InMem)
    (hrun : Run (StackAllocator.step callbacks) (StackAllocator.uniform executorStackSize)
      (executorStackAllocator arch, s) calls (a, s₁))
    (hdirect : ¬ addr.InDirectMap) (hdirect' : ¬ addr'.InDirectMap) (hne : addr ≠ addr')
    (h : Mmu.translate s₁.table.mem s₁.table.root addr = some pa)
    : Mmu.translate s₁.table.mem s₁.table.root addr' ≠ some pa := by
  intro h'
  have hreaches := hboots.reaches hbelow hclear hmem hrun h
  have hreaches' := hboots.reaches hbelow hclear hmem hrun h'
  exact hne (hreaches.eq hbelow hreaches' hdirect hdirect')

theorem translate_ne_uart_firstStack
    : ∃ t a s, (firstSpace t).Boots [Device.uart] ∧
        (executorStackAllocator .riscv64).allocate callbacks executorStackSize (firstSpace t) =
          (.ok 0xFFFFFFE000400000, a, s) ∧
        Mmu.translate s.table.mem s.table.root 0xFFFFFFE0003FFFF8 ≠ some 0x10000005 := by
  obtain ⟨t, a, s, hboots, hallocate⟩ := exists_firstStack
  refine ⟨t, a, s, hboots, hallocate, ?_⟩
  have hrun := run_firstStack hallocate
  exact translate_ne_of_run hboots (by decide) (by decide) inMem_firstSpace hrun (by decide) (by decide)
    (by decide) (Reaches.translate hboots (by decide) (by decide) inMem_firstSpace hrun reaches_uart)

end Run

end Reaches

end KernSpace

end Jrinx
