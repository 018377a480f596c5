import Jrinx.Multitask.StackMemory
import Jrinx.Paging.DirectMap

/-!
This module contains the address space that the kernel starts with: the pages of the devices that have been
probed and the direct map, as far as they are in the upper half.
-/

namespace Jrinx

open Std

variable {arch : Arch}

namespace KernSpace

open BootPageTable (Own)

section New

variable {b : BootPageTable arch} {pages : List (PhysFrame arch)} {frame : PhysFrame arch}
  {t : PageTable arch}

theorem mem_of_walk_new (hboot : b.Wf pages) (hframe : frame ∉ b.root :: pages)
    (hnew : PageTable.new b.mem b.entries [frame] = .ok t) {i : Nat} {path : List Nat} {page : VirtAddr arch}
    (hown : Own arch (i :: path))
    (hwalk : RadixTree.walk PageTable.next b.mem (BootPageTable.base b.root) (i :: path) = some page) (k : Nat)
    : t.mem page k = b.mem page k := by
  obtain ⟨_, _, hsame, _⟩ := BootPageTable.mem_new hnew
  apply hsame
  rintro rfl
  obtain ⟨node, hnode, heq⟩ := hboot.live _ _ hown hwalk
  rw [BootPageTable.base_inj heq] at hnode
  exact hframe hnode

theorem linked_new (hboot : b.Wf pages) (hframe : frame ∉ b.root :: pages)
    (hnew : PageTable.new b.mem b.entries [frame] = .ok t)
    (hlinked : RadixTree.Linked PageTable.next (Own arch) Mmu.Link b.mem b.root.addr.toVirt)
    : RadixTree.Linked PageTable.next (Own arch) Mmu.Link t.mem (BootPageTable.base frame) := by
  obtain ⟨_, _, _, hroot⟩ := BootPageTable.mem_new hnew
  intro path k page hown hwalk hnext
  cases path with
  | nil =>
    obtain rfl : BootPageTable.base frame = page := by simpa using hwalk
    rw [hroot] at hnext ⊢
    split
    . next hupper =>
      rw [if_pos hupper] at hnext
      exact hlinked [] k _ hown rfl hnext
    . next hlower =>
      rw [if_neg hlower, PageTable.next_clr] at hnext
      simp at hnext
  | cons i path =>
    have hprev := BootPageTable.own_closed _ _ hown
    rw [walk_new hboot hframe hnew hprev] at hwalk
    split at hwalk
    . rw [mem_of_walk_new hboot hframe hnew hprev hwalk] at hnext ⊢
      exact hlinked (i :: path) k page hown hwalk hnext
    . simp at hwalk

theorem leaf_new (hboot : b.Wf pages) (hframe : frame ∉ b.root :: pages)
    (hnew : PageTable.new b.mem b.entries [frame] = .ok t) {i : Nat} {path : List Nat} (k : Nat)
    (hown : Own arch (i :: path))
    : RadixTree.leaf PageTable.next t.mem (BootPageTable.base frame) (i :: path) k =
        if arch.pageEntries / 2 ≤ i ∧ i < arch.pageEntries then
          RadixTree.leaf PageTable.next b.mem (BootPageTable.base b.root) (i :: path) k
        else
          none := by
  rw [RadixTree.leaf, RadixTree.leaf, walk_new hboot hframe hnew hown]
  split
  . cases hwalk : RadixTree.walk PageTable.next b.mem (BootPageTable.base b.root) (i :: path) with
    | none => rfl
    | some page => rw [Option.bind_some, Option.bind_some, mem_of_walk_new hboot hframe hnew hown hwalk]
  . rfl

end New

end KernSpace

namespace BootPageTable

variable {b b' start : BootPageTable arch} {pages : List (PhysFrame arch)} {m : Mapped arch}

theorem allowed_deviceAddr {addr : Nat} (h : addr < arch.physMemBase)
    : b.Allowed (deviceAddr arch addr, BitVec.ofNat arch.bits addr) := by
  have htoNat : (deviceAddr arch addr).toNat = _ := toNat_deviceAddr addr
  unfold Allowed VirtAddr.Canonical
  dsimp only
  generalize (deviceAddr arch addr).toNat = virt at htoNat ⊢
  cases arch with
  | riscv32 =>
    have hlt : addr < 0x80000000 := h
    replace htoNat : virt = (addr + 0xD0000000) % 2 ^ 32 := htoNat
    have hregions : Arch.remapMemRegions .riscv32 = [⟨0x80000000, 0x80000000, 0x40000000⟩] := rfl
    rw [hregions]
    refine ⟨?_, ?_⟩
    . simp only [Arch.virtBits, Arch.bits]
      omega
    . rintro region hregion
      rw [List.mem_singleton] at hregion
      subst hregion
      dsimp only
      omega
  | riscv64 =>
    have hlt : addr < 0x80000000 := h
    replace htoNat : virt = (addr + 0xFFFFFFFF00000000) % 2 ^ 64 := htoNat
    have hregions : Arch.remapMemRegions .riscv64 =
        [⟨0x80000000, 0x80000000, 0x40000000⟩, ⟨0xFFFFFFC080000000, 0x80000000, 0x1F80000000⟩] := rfl
    rw [hregions]
    refine ⟨?_, ?_⟩
    . simp only [Arch.virtBits, Arch.bits]
      omega
    . rintro region hregion
      rw [List.mem_pair] at hregion
      rcases hregion with rfl | rfl
      . dsimp only
        omega
      . dsimp only
        omega

-- The call of `map` for one address of a device.
def deviceMap (arch : Arch) (addr : Nat) : VirtAddr arch × PhysAddr arch :=
  (deviceAddr arch addr, BitVec.ofNat arch.bits addr)

-- All calls of `map` by the probes, in their order.
def probeMaps (arch : Arch) (devices : List Device) : List (VirtAddr arch × PhysAddr arch) :=
  (devices.flatMap Device.addrs).map (deviceMap arch)

theorem Exact.mapAll {addrs : List Nat} (h : Exact start pages m b) (hpages : (start.root :: pages).Nodup)
    (hmem : ∀ page ∈ pages, page.addr.InMem) (hlt : ∀ addr ∈ addrs, addr < arch.physMemBase)
    (hmap : b.mapAll addrs = .next b')
    : Exact start pages ((addrs.map (deviceMap arch)).foldl Mapped.apply m) b' := by
  induction addrs generalizing b m with
  | nil =>
    obtain rfl := Outcome.next.inj hmap
    exact h
  | cons addr addrs ih =>
    rw [BootPageTable.mapAll] at hmap
    split at hmap
    next b₁ hfirst =>
      have hnext := h.after hpages hmem (allowed_deviceAddr (hlt addr List.mem_cons_self)) hfirst
      exact ih hnext (fun addr haddr => hlt addr (List.mem_cons_of_mem _ haddr)) hmap
    next => simp at hmap
    next => simp at hmap

theorem Exact.probeAll {devices : List Device} (h : Exact start pages m b)
    (hpages : (start.root :: pages).Nodup) (hmem : ∀ page ∈ pages, page.addr.InMem)
    (hbelow : ∀ d ∈ devices, d.region.BelowMemory arch) (hprobe : b.probeAll devices = .next b')
    : Exact start pages ((probeMaps arch devices).foldl Mapped.apply m) b' := by
  induction devices generalizing b m with
  | nil =>
    obtain rfl := Outcome.next.inj hprobe
    exact h
  | cons d devices ih =>
    rw [BootPageTable.probeAll] at hprobe
    split at hprobe
    next b₁ hfirst =>
      have hlt (addr : Nat) (haddr : addr ∈ d.addrs) :=
        d.lt_of_mem_addrs (hbelow d List.mem_cons_self) haddr
      have hnext : Exact start pages ((d.addrs.map (deviceMap arch)).foldl Mapped.apply m) b₁ := by
        rw [BootPageTable.probe] at hfirst
        rw [Device.addrs] at hlt ⊢
        split at hfirst
        next => simp at hfirst
        next size hsize =>
          rw [hsize] at hlt
          exact h.mapAll hpages hmem hlt hfirst
      have hall := ih hnext (fun d hd => hbelow d (List.mem_cons_of_mem _ hd)) hprobe
      rw [probeMaps, List.flatMap_cons, List.map_append, List.foldl_append]
      exact hall
    next => simp at hprobe
    next => simp at hprobe

theorem Mapped.after_append (as : List (VirtAddr arch × PhysAddr arch)) (a : VirtAddr arch × PhysAddr arch)
    : Mapped.after (as ++ [a]) = (Mapped.after as).apply a := by
  rw [Mapped.after, List.foldl_append]
  rfl

theorem Mapped.of_after_eq_some {as : List (VirtAddr arch × PhysAddr arch)} {page : VirtAddr arch}
    {phys : PhysAddr arch} (h : Mapped.after as page = some phys)
    : ∃ a ∈ as, page = alignPageDown a.1 ∧ a.2 = phys := by
  induction as using List.reverseRecOn with
  | nil => simp [Mapped.after] at h
  | append_singleton as a ih =>
    rw [Mapped.after_append, Mapped.apply] at h
    split at h
    . next heq => exact ⟨a, List.mem_append_right _ (List.mem_singleton_self a), heq, Option.some.inj h⟩
    . obtain ⟨a', ha', hpage⟩ := ih h
      exact ⟨a', List.mem_append_left _ ha', hpage⟩

theorem Mapped.after_ne_none {as : List (VirtAddr arch × PhysAddr arch)} {a : VirtAddr arch × PhysAddr arch}
    (h : a ∈ as)
    : Mapped.after as (alignPageDown a.1) ≠ none := by
  induction as using List.reverseRecOn with
  | nil => simp at h
  | append_singleton as a' ih =>
    rw [Mapped.after_append, Mapped.apply]
    split
    . exact Option.some_ne_none _
    . next hne =>
      rcases List.mem_append.mp h with h | h
      . exact ih h
      . rw [List.mem_singleton.mp h] at hne
        exact absurd rfl hne

theorem mem_probeMaps {devices : List Device} {a : VirtAddr arch × PhysAddr arch}
    : a ∈ probeMaps arch devices ↔ ∃ d ∈ devices, ∃ addr ∈ d.addrs, deviceMap arch addr = a := by
  simp only [probeMaps, List.mem_map, List.mem_flatMap]
  constructor
  . rintro ⟨addr, ⟨d, hd, haddr⟩, rfl⟩
    exact ⟨d, hd, addr, haddr, rfl⟩
  . rintro ⟨d, hd, addr, haddr, rfl⟩
    exact ⟨addr, ⟨d, hd, haddr⟩, rfl⟩

theorem upper_iff_index {addr : VirtAddr arch} (hcanonical : addr.Canonical) {shift : Nat} {shifts : List Nat}
    (hshifts : arch.indexShifts = shift :: shifts)
    : Upper addr ↔ arch.pageEntries / 2 ≤ Mmu.index addr shift ∧ Mmu.index addr shift < arch.pageEntries := by
  refine ⟨fun hupper => upper_index hupper hcanonical hshifts, ?_⟩
  have hlt := addr.isLt
  intro hindex
  cases arch with
  | riscv32 | riscv64 =>
    simp only [Arch.indexShifts, List.cons.injEq] at hshifts
    obtain ⟨rfl, _⟩ := hshifts
    simp only [Upper, VirtAddr.Canonical, Mmu.index, Arch.pageEntries, pageSize, Arch.bits, Arch.indexMask,
      Arch.virtBits] at *
    omega

end BootPageTable

namespace KernSpace

open BootPageTable (Own)

variable {s s' : KernSpace arch} {devices : List Device}

theorem Boots.entry (h : s.Boots devices) (hbelow : ∀ d ∈ devices, d.region.BelowMemory arch)
    (hmem : ∀ f ∈ s.bootPages, f.addr.InMem) {page : VirtAddr arch} (haligned : alignPageDown page = page)
    (hcanonical : page.Canonical) (hown : Own arch page.path)
    : s.table.entry page.path page.leaf =
        if BootPageTable.Upper page then
          (BootPageTable.Mapped.after (BootPageTable.probeMaps arch devices) page).map
            fun phys => .set phys BootPageTable.perm
        else
          none := by
  obtain ⟨root, mem, heap, b, frame, hnodup, hprobe, hframe, _, hnew, hboot⟩ := h
  rw [hboot] at hmem
  obtain ⟨hroot, hwf⟩ := (BootPageTable.wf_init root mem heap).probeAll hnodup hbelow hprobe
  have hroot' : b.root = root := hroot
  have hexact := (BootPageTable.exact_init root mem heap).probeAll hnodup
    (fun page hpage => hmem page (List.mem_cons_of_mem _ hpage)) hbelow hprobe
  rw [← hroot'] at hframe
  obtain ⟨hbase, _, _, _⟩ := BootPageTable.mem_new hnew
  obtain ⟨shift, shifts, hshifts, hpath⟩ := BootPageTable.exists_shift arch
  have hentry := hexact.entry page hcanonical hown
  rw [haligned, hpath] at hentry
  have hown' := hown
  rw [hpath] at hown'
  rw [PageTable.entry_eq_leaf, hbase, hpath, leaf_new hwf hframe hnew _ hown']
  simp only [BootPageTable.upper_iff_index hcanonical hshifts]
  split
  . exact hentry
  . rfl

theorem Boots.entry_none (h : s.Boots devices) (hbelow : ∀ d ∈ devices, d.region.BelowMemory arch)
    (hmem : ∀ f ∈ s.bootPages, f.addr.InMem) {page : VirtAddr arch} (haligned : alignPageDown page = page)
    (hcanonical : page.Canonical) (hown : Own arch page.path)
    (hne : ∀ d ∈ devices, ∀ addr ∈ d.addrs, page ≠ devicePage arch addr)
    : s.table.entry page.path page.leaf = none := by
  rw [h.entry hbelow hmem haligned hcanonical hown]
  have hnone : BootPageTable.Mapped.after (BootPageTable.probeMaps arch devices) page = none := by
    by_contra hsome
    obtain ⟨phys, hphys⟩ := Option.ne_none_iff_exists'.mp hsome
    obtain ⟨a, ha, heq, _⟩ := BootPageTable.Mapped.of_after_eq_some hphys
    obtain ⟨d, hd, addr, haddr, rfl⟩ := BootPageTable.mem_probeMaps.mp ha
    exact hne d hd addr haddr heq
  rw [hnone, Option.map_none, ite_self]

theorem Boots.sole (h : s.Boots devices) (hbelow : ∀ d ∈ devices, d.region.BelowMemory arch)
    (hmem : ∀ f ∈ s.bootPages, f.addr.InMem)
    : s.Sole := by
  have hwf := h.wf hbelow
  obtain ⟨root, mem, heap, b, frame, hnodup, hprobe, hframe, hframeMem, hnew, hboot⟩ := h
  rw [hboot] at hmem
  obtain ⟨hroot, hwfBoot⟩ := (BootPageTable.wf_init root mem heap).probeAll hnodup hbelow hprobe
  have hroot' : b.root = root := hroot
  have hexact := (BootPageTable.exact_init root mem heap).probeAll hnodup
    (fun page hpage => hmem page (List.mem_cons_of_mem _ hpage)) hbelow hprobe
  rw [← hroot'] at hframe
  have hframes : s.table.frames = (∅ : ExtTreeMap (VirtAddr arch) (PhysFrame arch)).insert
      frame.addr.toVirt frame := by
    rw [← Except.ok.inj hnew]
  have htableRoot : s.table.root = frame.addr := by
    rw [← Except.ok.inj hnew]
  have honly {p : VirtAddr arch} {f : PhysFrame arch} (hget : s.table.frames[p]? = some f)
      : frame.addr.toVirt = p ∧ frame = f := by
    rw [hframes, ExtTreeMap.getElem?_insert] at hget
    split at hget
    next heq => exact ⟨Std.compare_eq_iff_eq.mp heq, Option.some.inj hget⟩
    next => simp at hget
  refine ⟨hwf, ?_, ?_, ?_, ?_⟩
  . rw [htableRoot]
    exact linked_new hwfBoot hframe hnew hexact.linked
  . rw [htableRoot]
    exact PageTable.asArrayBase_frame frame
  . intro p q f hp hq
    rw [← (honly hp).1, ← (honly hq).1]
  . intro p f hp
    obtain ⟨_, rfl⟩ := honly hp
    rw [hboot, ← hroot']
    exact ⟨hframeMem, hframe⟩

theorem IsPage.ne_devicePage {x addr : Nat} (hx : IsPage arch x) (hlt : addr < arch.physMemBase)
    (hclear : Device.ClearOfStacks arch addr)
    : KernSpace.stackPage arch x ≠ devicePage arch addr := by
  obtain ⟨lo, hlo, hmem⟩ := hx
  have hpage : StackPage (KernSpace.stackPage arch x) lo := stackPage_of_mem hlo hmem
  intro heq
  apply hpage.ne_devicePage hlo hlt hclear
  rw [heq]
  exact ⟨rfl, rfl⟩

theorem Boots.stacked (h : s.Boots devices) (hbelow : ∀ d ∈ devices, d.region.BelowMemory arch)
    (hclear : ∀ d ∈ devices, ∀ addr ∈ d.addrs, Device.ClearOfStacks arch addr)
    (hmem : ∀ f ∈ s.bootPages, f.addr.InMem)
    : s.Stacked ∧ ∀ addr, IsPage arch addr → s.view addr = none := by
  have hnone (addr : Nat) (haddr : IsPage arch addr)
      : s.table.entry (stackPage arch addr).path (stackPage arch addr).leaf = none := by
    obtain ⟨_, hpage⟩ := haddr.stackPage
    apply h.entry_none hbelow hmem hpage.aligned hpage.canonical hpage.own
    intro d hd device hdevice
    exact haddr.ne_devicePage (d.lt_of_mem_addrs (hbelow d hd) hdevice) (hclear d hd device hdevice)
  have hstacked : s.Stacked := by
    refine ⟨h.sole hbelow hmem, ?_⟩
    intro addr haddr pte hpte
    rw [hnone addr haddr] at hpte
    simp at hpte
  exact ⟨hstacked, fun addr haddr => (hstacked.view_eq_none_iff haddr).mpr (hnone addr haddr)⟩

/--
The huge pages in the root of the kernel page table: those of the direct map, and none in the lower half.
-/
structure Huge (s : KernSpace arch) : Prop where
  direct : BootPageTable.DirectMapped s.table.mem s.table.root
  lower : ∀ k, BootPageTable.Remapped arch k → k < arch.pageEntries / 2 →
    s.table.mem s.table.root.toVirt k = .clr

theorem Boots.huge (h : s.Boots devices) (hbelow : ∀ d ∈ devices, d.region.BelowMemory arch)
    (hmem : ∀ f ∈ s.bootPages, f.addr.InMem)
    : s.Huge := by
  obtain ⟨root, mem, heap, b, frame, hnodup, hprobe, _, _, hnew, hboot⟩ := h
  rw [hboot] at hmem
  have hexact := (BootPageTable.exact_init root mem heap).probeAll hnodup
    (fun page hpage => hmem page (List.mem_cons_of_mem _ hpage)) hbelow hprobe
  refine ⟨hexact.directMapped.new hnew, ?_⟩
  intro k _ hk
  obtain ⟨_, _, _, hroot⟩ := BootPageTable.mem_new hnew
  have hbase : s.table.root.toVirt = BootPageTable.base frame := by
    rw [← Except.ok.inj hnew]
    rfl
  rw [hbase, hroot, if_neg (by omega)]

theorem SameRoot.huge (h : SameRoot s s') (hroot : s.table.root.toVirt.asArrayBase = s.table.root.toVirt)
    (hhuge : s.Huge)
    : s'.Huge := by
  have hentry := h.entry
  rw [hroot] at hentry
  constructor
  case direct =>
    rw [h.root]
    intro p hp shift hshift
    rw [hentry _ (BootPageTable.directSlot_toVirt hp hshift).remapped]
    exact hhuge.direct p hp shift hshift
  case lower =>
    rw [h.root]
    intro k hk hlower
    rw [hentry k hk]
    exact hhuge.lower k hk hlower

theorem backs_huge
    : StackAllocator.Backs callbacks (arch.executorStackRegion.addr, arch.executorStackRegion.len)
        executorStackSize executorStackSize (fun s : KernSpace arch => s.Stacked ∧ s.Huge) view := by
  apply backs.and
  . intro addr s haddr h _ hhuge
    have hpage : IsPage arch addr := haddr
    exact (h.toSole.map hpage.not_direct hpage.own).sameRoot.huge h.root hhuge
  . intro addr s haddr h hhuge
    have hpage : IsPage arch addr := haddr
    exact (h.toSole.unmap hpage.not_direct hpage.own).sameRoot.huge h.root hhuge

end KernSpace

end Jrinx
