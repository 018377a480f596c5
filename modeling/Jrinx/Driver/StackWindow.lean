import Jrinx.Driver.Probe

/-!
This module contains the proof of which devices the stacks of the executors leave alone. The windows of
the devices and the stacks lie behind each other, but nothing keeps a device out of the stacks.
-/

namespace Jrinx

open Std

variable {arch : Arch}

def executorStackAllocator (arch : Arch) : StackAllocator :=
  .new (arch.executorStackRegion.addr, arch.executorStackRegion.len) executorStackSize

-- A stack of an executor starts at `lo`.
def IsExecutorStack (arch : Arch) (lo : Nat) : Prop :=
  StackAllocator.IsStack (arch.executorStackRegion.addr, arch.executorStackRegion.len) executorStackSize
    executorStackSize lo

def KernSpace.Boots (devices : List Device) (s : KernSpace arch) : Prop :=
  ∃ (root : PhysFrame arch) (mem : Memory arch) (heap : List (PhysFrame arch)) (b : BootPageTable arch)
    (frame : PhysFrame arch),
    (root :: heap).Nodup ∧ (BootPageTable.zeroed root mem heap).init.probeAll devices = .next b ∧
      frame ∉ root :: heap ∧ frame.addr.InMem ∧ PageTable.new b.mem b.entries [frame] = .ok s.table ∧
        s.bootPages = root :: heap

namespace Device

/--
No stack that the allocator can hand out has a byte in common with a page of the device.
-/
def ApartFromStacks (arch : Arch) (d : Device) : Prop :=
  ∀ addr ∈ d.addrs, ∀ (σ : Type) (cb : StackAllocator.Callbacks σ) (s s' : σ) (calls : List StackCall)
    (a : StackAllocator) (top : Nat),
    Run (StackAllocator.step cb) (StackAllocator.uniform executorStackSize) (executorStackAllocator arch, s)
        calls (a, s') →
      (a.allocate cb executorStackSize s').1 = .ok top →
        ∀ x, top - executorStackSize ≤ x → x < top →
          ¬ ((devicePage arch addr).toNat ≤ x ∧ x < (devicePage arch addr).toNat + pageSize)

/--
What the pages of the device are translated to does not change, whatever executors are created and
dropped.
-/
def Undisturbed (arch : Arch) (d : Device) : Prop :=
  ∀ (devices : List Device) (s s' : KernSpace arch) (calls : List StackCall) (a : StackAllocator),
    d ∈ devices → (∀ d' ∈ devices, d'.region.BelowMemory arch) → s.Boots devices →
      Run (StackAllocator.step KernSpace.callbacks) (StackAllocator.uniform executorStackSize)
          (executorStackAllocator arch, s) calls (a, s') →
        ∀ addr ∈ d.addrs,
          s'.table.entry (devicePage arch addr).path (devicePage arch addr).leaf =
            s.table.entry (devicePage arch addr).path (devicePage arch addr).leaf

/--
The physical addresses whose windows are not in the place of a stack.
-/
def ClearOfStacks (arch : Arch) (addr : Nat) : Prop :=
  match arch with
  | .riscv32 => addr < 0x10000000 ∨ 0x20400000 ≤ addr ∨ 0x400000 ≤ (addr - 0x10000000) % 0x800000
  | .riscv64 => 0x400000 ≤ addr

instance (addr : Nat) : Decidable (ClearOfStacks arch addr) :=
  match arch with
  | .riscv32 => inferInstanceAs (Decidable (_ ∨ _ ∨ _))
  | .riscv64 => inferInstanceAs (Decidable (0x400000 ≤ addr))

end Device

theorem isExecutorStack_iff {lo : Nat}
    : IsExecutorStack arch lo ↔
        ∃ n, lo = arch.executorStackRegion.addr + n * 0x800000 ∧ n * 0x800000 ≤ arch.executorStackRegion.len := by
  have hsize : executorStackSize = 0x400000 := rfl
  rw [IsExecutorStack, StackAllocator.IsStack, hsize]
  apply exists_congr
  intro n
  apply and_congr Iff.rfl
  omega

theorem toNat_devicePage (arch : Arch) (addr : Nat)
    : (devicePage arch addr).toNat =
        (addr + arch.externalDeviceRegion.addr) % 2 ^ arch.bits / 4096 * 4096 := by
  rw [devicePage, toNat_alignPageDown, toNat_deviceAddr]

theorem clear32_iff {addr page : Nat} (h : addr < 0x80000000)
    (hpage : page = (addr + 0xD0000000) % 2 ^ 32 / 4096 * 4096)
    : (addr < 0x10000000 ∨ 0x20400000 ≤ addr ∨ 0x400000 ≤ (addr - 0x10000000) % 0x800000) ↔
        ∀ n, n * 0x800000 ≤ 0x10000000 → ∀ x, 0xE0000000 + n * 0x800000 ≤ x →
          x < 0xE0000000 + n * 0x800000 + 0x400000 → ¬ (page ≤ x ∧ x < page + 4096) := by
  constructor
  . intro hclear n hn x hle hlt hx
    omega
  . intro hapart
    have hx := hapart ((addr - 0x10000000) / 0x800000)
    by_cases hlow : addr < 0x10000000
    . exact .inl hlow
    . by_cases hhigh : 0x20400000 ≤ addr
      . exact .inr (.inl hhigh)
      . by_cases hgap : 0x400000 ≤ (addr - 0x10000000) % 0x800000
        . exact .inr (.inr hgap)
        . exact absurd ⟨Nat.le_refl page, by omega⟩ (hx (by omega) page (by omega) (by omega))

theorem clear64_iff {addr page : Nat} (h : addr < 0x80000000)
    (hpage : page = (addr + 0xFFFFFFFF00000000) % 2 ^ 64 / 4096 * 4096)
    : 0x400000 ≤ addr ↔
        ∀ n, n * 0x800000 ≤ 0x1F00000000 → ∀ x, 0xFFFFFFE000000000 + n * 0x800000 ≤ x →
          x < 0xFFFFFFE000000000 + n * 0x800000 + 0x400000 → ¬ (page ≤ x ∧ x < page + 4096) := by
  constructor
  . intro hclear n hn x hle hlt hx
    omega
  . intro hapart
    -- the last stack starts at the end of the region
    have hx := hapart 0x3E00 (by omega) page
    by_cases hclear : 0x400000 ≤ addr
    . exact hclear
    . exact absurd ⟨Nat.le_refl page, by omega⟩ (hx (by omega) (by omega))

theorem clearOfStacks_iff {addr : Nat} (h : addr < arch.physMemBase)
    : Device.ClearOfStacks arch addr ↔
        ∀ lo, IsExecutorStack arch lo → ∀ x, lo ≤ x → x < lo + 0x400000 →
          ¬ ((devicePage arch addr).toNat ≤ x ∧ x < (devicePage arch addr).toNat + 4096) := by
  have hpage := toNat_devicePage arch addr
  generalize (devicePage arch addr).toNat = page at hpage ⊢
  have hstacks (p : Nat → Prop)
      : (∀ lo, IsExecutorStack arch lo → p lo) ↔
          ∀ n, n * 0x800000 ≤ arch.executorStackRegion.len →
            p (arch.executorStackRegion.addr + n * 0x800000) := by
    simp only [isExecutorStack_iff]
    constructor
    . intro hall n hn
      exact hall _ ⟨n, rfl, hn⟩
    . rintro hall lo ⟨n, rfl, hn⟩
      exact hall n hn
  rw [hstacks]
  cases arch with
  | riscv32 => exact clear32_iff h hpage
  | riscv64 => exact clear64_iff h hpage

section Stacks

theorem nextMultipleOf_executorStackSize
    : nextMultipleOf executorStackSize pageSize = executorStackSize := by
  decide

theorem executorStackSize_le : executorStackSize ≤ arch.executorStackRegion.addr := by
  cases arch <;> decide

theorem fits_executorStack {σ : Type} {cb : StackAllocator.Callbacks σ} {s s' : σ} {a : StackAllocator}
    {calls : List StackCall}
    (hrun : Run (StackAllocator.step cb) (StackAllocator.uniform executorStackSize)
      (executorStackAllocator arch, s) calls (a, s'))
    : StackAllocator.allocate.fits arch.bits a executorStackSize = true := by
  apply (StackAllocator.isStack_of_run nextMultipleOf_executorStackSize nextMultipleOf_executorStackSize
    executorStackSize_le hrun).2
  cases arch <;> decide

theorem apartFromStacks_iff {d : Device} (h : d.region.BelowMemory arch)
    : d.ApartFromStacks arch ↔ ∀ addr ∈ d.addrs, Device.ClearOfStacks arch addr := by
  constructor
  . intro hapart addr haddr
    rw [clearOfStacks_iff (d.lt_of_mem_addrs h haddr)]
    intro lo hlo x hle hlt
    obtain ⟨calls, a, hrun, htop⟩ := StackAllocator.exists_run_of_isStack nextMultipleOf_executorStackSize
      nextMultipleOf_executorStackSize executorStackSize_le hlo
    have hsize : executorStackSize = 0x400000 := rfl
    exact hapart addr haddr Unit _ _ _ calls a _ hrun htop x (by omega) (by omega)
  . intro hclear addr haddr σ cb s s' calls a top hrun htop x hle hlt
    obtain ⟨hstack, _⟩ := StackAllocator.isStack_of_run nextMultipleOf_executorStackSize
      nextMultipleOf_executorStackSize executorStackSize_le hrun
    obtain ⟨lo, hlo, rfl⟩ := hstack top htop
    have hsize : executorStackSize = 0x400000 := rfl
    rw [Nat.add_sub_cancel] at hle
    exact (clearOfStacks_iff (d.lt_of_mem_addrs h haddr)).mp (hclear addr haddr) lo hlo x hle (by omega)

theorem not_inDirectMap {addr : VirtAddr arch} (h : arch.physMemLimit + arch.remapMemOffset ≤ addr.toNat)
    : ¬ addr.InDirectMap := by
  rintro ⟨_, hlt⟩
  rw [BitVec.lt_def, PhysAddr.toNat_toVirt, BitVec.toNat_ofNat] at hlt
  cases arch with
  | riscv32 =>
    have hle : 0xC0000000 ≤ addr.toNat := h
    have hlt' : addr.toNat < (0xC0000000 % 2 ^ 32 + 0) % 2 ^ 32 := hlt
    omega
  | riscv64 =>
    have hle : 0xFFFFFFE000000000 ≤ addr.toNat := h
    have hlt' : addr.toNat < (0x2000000000 % 2 ^ 64 + 0xFFFFFFC000000000) % 2 ^ 64 := hlt
    omega

structure StackPage (page : VirtAddr arch) (lo : Nat) : Prop where
  aligned : alignPageDown page = page
  le : lo ≤ page.toNat
  lt : page.toNat < lo + 0x400000
  high : arch.physMemLimit + arch.remapMemOffset ≤ page.toNat
  own : BootPageTable.Own arch page.path

theorem stackPage_of_mem {lo addr : Nat} (hlo : IsExecutorStack arch lo)
    (haddr : addr ∈ StackAllocator.pages lo executorStackSize)
    : StackPage (alignPageDown (BitVec.ofNat arch.bits addr)) lo := by
  obtain ⟨n, rfl, hn⟩ := isExecutorStack_iff.mp hlo
  obtain ⟨i, hi, rfl⟩ := StackAllocator.mem_pages_iff.mp haddr
  have hi' : i < 1024 := hi
  have htoNat : (alignPageDown (BitVec.ofNat arch.bits
      (arch.executorStackRegion.addr + n * 0x800000 + i * pageSize))).toNat = _ := toNat_alignPageDown
  rw [BitVec.toNat_ofNat] at htoNat
  cases arch with
  | riscv32 =>
    have hn' : n * 0x800000 ≤ 0x10000000 := hn
    have hpage : (0xE0000000 + n * 0x800000 + i * 4096) % 2 ^ 32 / 4096 * 4096 =
        0xE0000000 + n * 0x800000 + i * 4096 := by omega
    replace htoNat := htoNat.trans hpage
    refine ⟨alignPageDown_alignPageDown, ?_, ?_, ?_, ?_⟩
    . rw [htoNat]
      exact Nat.le_add_right _ _
    . rw [htoNat]
      apply Nat.add_lt_add_left
      omega
    . rw [htoNat]
      have hle : 0xC0000000 ≤ 0xE0000000 + n * 0x800000 + i * 4096 := by omega
      exact hle
    . apply BootPageTable.own_of_head
      rw [VirtAddr.head_indexes32, htoNat]
      generalize hslot : (0xE0000000 + n * 0x800000 + i * 4096) / 2 ^ 22 % 1024 = slot
      have hrange : 896 ≤ slot := by omega
      rintro ⟨_, hlt⟩
      omega
  | riscv64 =>
    have hn' : n * 0x800000 ≤ 0x1F00000000 := hn
    have hpage : (0xFFFFFFE000000000 + n * 0x800000 + i * 4096) % 2 ^ 64 / 4096 * 4096 =
        0xFFFFFFE000000000 + n * 0x800000 + i * 4096 := by omega
    replace htoNat := htoNat.trans hpage
    refine ⟨alignPageDown_alignPageDown, ?_, ?_, ?_, ?_⟩
    . rw [htoNat]
      exact Nat.le_add_right _ _
    . rw [htoNat]
      apply Nat.add_lt_add_left
      omega
    . rw [htoNat]
      have hle : 0xFFFFFFE000000000 ≤ 0xFFFFFFE000000000 + n * 0x800000 + i * 4096 := by omega
      exact hle
    . apply BootPageTable.own_of_head
      rw [VirtAddr.head_indexes64, htoNat]
      generalize hslot : (0xFFFFFFE000000000 + n * 0x800000 + i * 4096) / 2 ^ 30 % 512 = slot
      have hrange : 384 ≤ slot := by omega
      rintro (rfl | ⟨_, hlt⟩)
      . omega
      . omega

theorem StackPage.canonical {page : VirtAddr arch} {lo : Nat} (h : StackPage page lo)
    : page.Canonical := by
  right
  cases arch with
  | riscv32 =>
    have hle : 0xC0000000 ≤ page.toNat := h.high
    have hcanonical : 2 ^ 32 - 2 ^ (32 - 1) ≤ page.toNat := by omega
    exact hcanonical
  | riscv64 =>
    have hle : 0xFFFFFFE000000000 ≤ page.toNat := h.high
    have hcanonical : 2 ^ 64 - 2 ^ (39 - 1) ≤ page.toNat := by omega
    exact hcanonical

theorem canonical_devicePage {addr : Nat} (h : addr < arch.physMemBase)
    : (devicePage arch addr).Canonical := by
  have hpage := toNat_devicePage arch addr
  generalize devicePage arch addr = page at hpage ⊢
  cases arch with
  | riscv32 =>
    have hcanonical : page.toNat < 2 ^ (32 - 1) ∨ 2 ^ 32 - 2 ^ (32 - 1) ≤ page.toNat := by omega
    exact hcanonical
  | riscv64 =>
    right
    have haddr : addr < 0x80000000 := h
    have hpage' : page.toNat = (addr + 0xFFFFFFFF00000000) % 2 ^ 64 / 4096 * 4096 := hpage
    have hcanonical : 2 ^ 64 - 2 ^ (39 - 1) ≤ page.toNat := by omega
    exact hcanonical

theorem StackPage.ne_devicePage {page : VirtAddr arch} {lo addr : Nat} (h : StackPage page lo)
    (hlo : IsExecutorStack arch lo) (haddr : addr < arch.physMemBase)
    (hclear : Device.ClearOfStacks arch addr)
    : ¬ ((devicePage arch addr).path = page.path ∧ (devicePage arch addr).leaf = page.leaf) := by
  rintro ⟨hpath, hleaf⟩
  have hindexes : (devicePage arch addr).indexes = page.indexes := by
    rw [VirtAddr.indexes_eq_path_leaf, VirtAddr.indexes_eq_path_leaf, hpath, hleaf]
  have hsame := VirtAddr.alignPageDown_eq_of_indexes (canonical_devicePage haddr) h.canonical hindexes
  rw [h.aligned, devicePage, alignPageDown_alignPageDown] at hsame
  have hapart := (clearOfStacks_iff haddr).mp hclear lo hlo page.toNat h.le h.lt
  rw [devicePage, hsame] at hapart
  exact hapart ⟨Nat.le_refl _, by omega⟩

end Stacks

section Space

variable {d : Device} {s s' s₀ : KernSpace arch}

def KeepsDevice (d : Device) (s₀ s : KernSpace arch) : Prop :=
  s.Wf ∧ ∀ addr ∈ d.addrs,
    s.table.entry (devicePage arch addr).path (devicePage arch addr).leaf =
      s₀.table.entry (devicePage arch addr).path (devicePage arch addr).leaf

theorem KeepsDevice.changes (h : KeepsDevice d s₀ s) {page : VirtAddr arch} {lo : Nat}
    (hpage : StackPage page lo) (hlo : IsExecutorStack arch lo) (hbelow : d.region.BelowMemory arch)
    (hclear : ∀ addr ∈ d.addrs, Device.ClearOfStacks arch addr) (hchanges : KernSpace.Changes page s s')
    : KeepsDevice d s₀ s' := by
  refine ⟨hchanges.wf, ?_⟩
  intro addr haddr
  have hlt := d.lt_of_mem_addrs hbelow haddr
  rw [hchanges.entry _ _ (own_devicePage hlt) (VirtAddr.length_path _)
    (hpage.ne_devicePage hlo hlt (hclear addr haddr))]
  exact h.2 addr haddr

theorem KernSpace.Boots.wf {devices : List Device} (h : s.Boots devices)
    (hbelow : ∀ d ∈ devices, d.region.BelowMemory arch)
    : s.Wf := by
  obtain ⟨root, mem, heap, b, frame, hnodup, hprobe, hframe, hmem, hnew, hboot⟩ := h
  obtain ⟨hroot, hwf⟩ := (BootPageTable.wf_init root mem heap).probeAll hnodup hbelow hprobe
  have hroot' : b.root = root := hroot
  obtain ⟨table, bootPages, answers⟩ := s
  simp only at hnew hboot
  subst hboot
  rw [← hroot'] at hframe ⊢
  exact KernSpace.wf_new hwf hframe hmem hnew answers

theorem undisturbed_of_clear (hbelow : d.region.BelowMemory arch)
    (hclear : ∀ addr ∈ d.addrs, Device.ClearOfStacks arch addr)
    : d.Undisturbed arch := by
  intro devices s s' calls a _ hdevices hboots hrun
  have hkeeps : StackAllocator.Keeps KernSpace.callbacks
      (arch.executorStackRegion.addr, arch.executorStackRegion.len) executorStackSize executorStackSize
      (KeepsDevice d s) := by
    intro lo hlo addr haddr s₁ h
    have hpage := stackPage_of_mem hlo haddr
    have hlow := not_inDirectMap hpage.high
    exact ⟨h.changes hpage hlo hbelow hclear (h.1.map hlow hpage.own),
      h.changes hpage hlo hbelow hclear (h.1.unmap hlow hpage.own)⟩
  have hinit : KeepsDevice d s s := ⟨hboots.wf hdevices, fun _ _ => rfl⟩
  exact (StackAllocator.uniform_of_run hkeeps nextMultipleOf_executorStackSize
    nextMultipleOf_executorStackSize executorStackSize_le hinit hrun).2.2

end Space

theorem Device.apart_and_undisturbed_iff_clear {d : Device} (hbelow : d.region.BelowMemory arch)
    : d.ApartFromStacks arch ∧ d.Undisturbed arch ↔ ∀ addr ∈ d.addrs, ClearOfStacks arch addr := by
  constructor
  . rintro ⟨hapart, _⟩
    exact (apartFromStacks_iff hbelow).mp hapart
  . intro hclear
    exact ⟨(apartFromStacks_iff hbelow).mpr hclear, undisturbed_of_clear hbelow hclear⟩

-- The serial port of the machine `virt`.
def Device.uart : Device where
  driver := .ns16550a
  region := { startingAddress := 0x10000000, size := some 0x100 }

theorem Device.apart_uart64 : uart.ApartFromStacks .riscv64 ∧ uart.Undisturbed .riscv64 :=
  (Device.apart_and_undisturbed_iff_clear (by decide)).mpr (by decide)

namespace Device

open PageTable (frameAt)

-- The first page of the first stack is mapped, then the allocator has no more frames.
def uartSpace (t : PageTable .riscv32) : KernSpace .riscv32 where
  table := t
  bootPages := [frameAt .riscv32 0x80200000, frameAt .riscv32 0x80201000]
  answers := [[frameAt .riscv32 0x80300000]]

def uartChanges (t : PageTable .riscv32) : Bool :=
  (exec (checked (StackAllocator.step KernSpace.callbacks) (StackAllocator.uniform executorStackSize))
    (executorStackAllocator .riscv32, uartSpace t) [.allocate executorStackSize]).holds
      (fun s => s.2.table.entry (devicePage .riscv32 0x10000000).path (devicePage .riscv32 0x10000000).leaf ≠
        t.entry (devicePage .riscv32 0x10000000).path (devicePage .riscv32 0x10000000).leaf)

theorem exists_uartChanges
    : ∃ t, (uartSpace t).Boots [uart] ∧ uartChanges t = true := by
  have hboot : ((BootPageTable.zeroed (frameAt .riscv32 0x80200000) (fun _ _ => .clr)
      [frameAt .riscv32 0x80201000]).init.probeAll [uart]).holds (fun b =>
        match PageTable.new b.mem b.entries [frameAt .riscv32 0x80202000] with
        | .ok t => uartChanges t
        | .error _ => false) = true := by
    decide +kernel
  obtain ⟨b, hprobe, hchanges⟩ := Outcome.holds_iff.mp hboot
  split at hchanges
  next t hnew =>
    refine ⟨t, ⟨frameAt .riscv32 0x80200000, fun _ _ => .clr, [frameAt .riscv32 0x80201000], b,
      frameAt .riscv32 0x80202000, ?_, hprobe, ?_, ?_, hnew, rfl⟩, hchanges⟩
    . decide +kernel
    . decide +kernel
    . decide +kernel
  next => simp at hchanges

theorem apart_uart32_false
    : uart.region.BelowMemory .riscv32 ∧ ¬ uart.ApartFromStacks .riscv32 ∧ ¬ uart.Undisturbed .riscv32 := by
  have hbelow : uart.region.BelowMemory .riscv32 := by decide
  refine ⟨hbelow, ?_, ?_⟩
  . rw [apartFromStacks_iff hbelow]
    decide
  . intro hundisturbed
    obtain ⟨t, hboots, hchanges⟩ := exists_uartChanges
    obtain ⟨⟨a, s⟩, hrun, hne⟩ := exists_run_of_exec _ _ _ _ hchanges
    have hsame := hundisturbed [uart] (uartSpace t) s _ a (by simp) (by simpa using hbelow) hboots
      hrun.of_checked 0x10000000 (by decide)
    simp only [ne_eq, decide_not, Bool.not_eq_true', decide_eq_false_iff_not] at hne
    exact hne hsame

end Device

end Jrinx
