import Jrinx.Driver.DeviceSpace
import Jrinx.Driver.ProbeOrder

/-!
This module contains when the probing of the devices comes to its end. The order in which the linker has put the
probers does not matter, and neither does the order of the nodes in the device tree.
-/

namespace Jrinx

variable {arch : Arch}

open DevProber

-- The register for the priority of the interrupt is on the pages of the controller, or its address leads nowhere.
def BootPageTable.LineApart (b : BootPageTable arch) (as : List (DevProber × FdtNode)) (node : FdtNode) (irqNum : Nat)
    : Prop :=
  ∀ startingAddress size, node.region = some (startingAddress, size) →
    DevProber.plic.Window node (startingAddress + PlicOffset.priority irqNum) ∨
      (∀ a ∈ as, ∀ addr ∈ a.1.addrs a.2,
        alignPageDown (regAt (deviceAddr arch startingAddress) (PlicOffset.priority irqNum)) ≠ devicePage arch addr) ∧
      b.translate (regAt (deviceAddr arch startingAddress) (PlicOffset.priority irqNum)) = none

/--
The device tree suits the machine: the devices are below the memory, no two interrupt controllers share a handle, and
no interrupt has its register for the priority among those of another device.
-/
structure BootPageTable.Suits (b : BootPageTable arch) (probers : List DevProber) (nodes : List FdtNode) : Prop where
  below : ∀ a ∈ pairs probers nodes, ∀ addr ∈ a.1.addrs a.2, addr < arch.physMemBase
  handles : ∀ node ∈ nodes, ∀ node' ∈ nodes, DevProber.plic.matches node = true →
    DevProber.plic.matches node' = true → node.phandle = node'.phandle → node.region = node'.region
  lines : ∀ a ∈ pairs probers nodes, ∀ {phandle irqNum dev}, a.1.registers a.2 = some (phandle, irqNum, dev) →
    ∀ node ∈ nodes, DevProber.plic.matches node = true → node.phandle = .value phandle →
      b.LineApart (pairs probers nodes) node irqNum

/--
What the probing starts with: the boot page table as `init` has left it, with frames for all mappings, and no
controller.
-/
structure DevState.Prepared (root : PhysFrame arch) (mem : Memory arch) (heap : List (PhysFrame arch))
    (probers : List DevProber) (nodes : List FdtNode) (s : DevState arch) : Prop where
  pages : (root :: heap).Nodup
  inMem : ∀ page ∈ heap, page.addr.InMem
  bootTable : s.bootTable = (BootPageTable.zeroed root mem heap).init
  frames : frames arch (pairs probers nodes) ≤ heap.length
  irqTable : ∀ phandle, s.irqTable phandle = none

/--
What is known in the course of the probing: the pages of the devices so far have been mapped, and each controller
comes from a node of the tree.
-/
structure DevState.Course (root : PhysFrame arch) (mem : Memory arch) (heap : List (PhysFrame arch))
    (done : List (DevProber × FdtNode)) (s : DevState arch) : Prop where
  exact : BootPageTable.Exact (BootPageTable.zeroed root mem heap).init heap
    (BootPageTable.Mapped.after ((allAddrs done).map (BootPageTable.deviceMap arch))) s.bootTable
  entry : ∀ {phandle inner irqManager}, s.irqTable phandle = some (inner, irqManager) →
    ∃ node startingAddress size, (.plic, node) ∈ done ∧ node.phandle = .value phandle ∧
      node.region = some (startingAddress, size) ∧ PlicInner.new (deviceAddr arch startingAddress) = some inner

section

variable {root : PhysFrame arch} {mem : Memory arch} {heap : List (PhysFrame arch)} {probers : List DevProber}
  {nodes : List FdtNode} {s s' : DevState arch} {done : List (DevProber × FdtNode)} {a : DevProber × FdtNode}
  {sort : SortUnstable (@ExclusiveIntervals.byPosAndDelta arch.bits)} {kernelEnd : VirtAddr arch}

namespace DevState

theorem Prepared.course (h : Prepared root mem heap probers nodes s) : Course root mem heap [] s := by
  constructor
  case exact =>
    rw [h.bootTable]
    exact BootPageTable.exact_init root mem heap
  case entry =>
    intro phandle inner irqManager hentry
    rw [h.irqTable] at hentry
    cases hentry

section

variable (h : Course root mem heap done s) (hpages : (root :: heap).Nodup) (hmem : ∀ page ∈ heap, page.addr.InMem)
  (hlt : ∀ addr ∈ a.1.addrs a.2, addr < arch.physMemBase)

include h hpages hmem hlt

theorem Course.mapAll {bootTable : BootPageTable arch} (hmap : s.bootTable.mapAll (a.1.addrs a.2) = .next bootTable)
    : BootPageTable.Exact (BootPageTable.zeroed root mem heap).init heap
        (BootPageTable.Mapped.after ((allAddrs (done ++ [a])).map (BootPageTable.deviceMap arch))) bootTable := by
  have hexact := h.exact.mapAll hpages hmem hlt hmap
  rw [BootPageTable.Mapped.after, ← List.foldl_append, ← List.map_append] at hexact
  rwa [allAddrs, List.flatMap_append, List.flatMap_singleton]

theorem Course.next (hprobes : Probes sort kernelEnd s a s') : Course root mem heap (done ++ [a]) s' := by
  refine ⟨h.mapAll hpages hmem hlt hprobes.maps, ?_⟩
  have hbefore {phandle : Nat} {inner : PlicInner arch} {irqManager : IrqManager}
      (hentry : s.irqTable phandle = some (inner, irqManager))
      : ∃ node startingAddress size, (DevProber.plic, node) ∈ done ++ [a] ∧ node.phandle = .value phandle ∧
        node.region = some (startingAddress, size) ∧ PlicInner.new (deviceAddr arch startingAddress) = some inner := by
    obtain ⟨node, startingAddress, size, hnode, hrest⟩ := h.entry hentry
    exact ⟨node, startingAddress, size, List.mem_append_left _ hnode, hrest⟩
  have hregistered {parent irqNum : Nat} {dev : IrqDevice} {inner inner' : PlicInner arch}
      {irqManager irqManager' : IrqManager} {phandle : Nat} (htable : s.irqTable parent = some (inner, irqManager))
      (hentry : Function.update s.irqTable parent (some (inner, irqManager.registerDevice irqNum dev)) phandle =
        some (inner', irqManager'))
      : ∃ irqManager, s.irqTable phandle = some (inner', irqManager) := by
    rw [Function.update_apply] at hentry
    split at hentry
    next heq =>
      cases hentry
      exact ⟨irqManager, heq ▸ htable⟩
    next => exact ⟨irqManager', hentry⟩
  intro phandle inner irqManager hentry
  cases hprobes with
  | intc | memory | virtioMmio => exact hbefore hentry
  | plic hregion hphandle hmap hnew hmax =>
    dsimp only at hentry
    rw [Function.update_apply] at hentry
    split at hentry
    next heq =>
      cases hentry
      subst heq
      exact ⟨_, _, _, List.mem_append_right _ (List.mem_singleton_self _), hphandle, hregion, hnew⟩
    next => exact hbefore hentry
  | ns16550a hregion hirq hparent hmap htable hline =>
    obtain ⟨_, hold⟩ := hregistered htable hentry
    exact hbefore hold
  | virtioNet hregion hirq hparent hmap hheader htransport htable hline =>
    obtain ⟨_, hold⟩ := hregistered htable hentry
    exact hbefore hold

end

theorem Course.exec {as : List (DevProber × FdtNode)} (h : Course root mem heap done s)
    (hpages : (root :: heap).Nodup) (hmem : ∀ page ∈ heap, page.addr.InMem)
    (hlt : ∀ a ∈ as, ∀ addr ∈ a.1.addrs a.2, addr < arch.physMemBase)
    (hexec : exec (DevState.probe sort kernelEnd) s as = .next s')
    : Course root mem heap (done ++ as) s' := by
  induction hexec using exec_induction generalizing done with
  | nil => rwa [List.append_nil]
  | @cons _ _ a as hprobe _ ih =>
    rw [List.append_cons]
    refine ih (h.next hpages hmem (hlt a List.mem_cons_self) (probe_iff.mp hprobe)) ?_
    exact fun b hb => hlt b (List.mem_cons_of_mem a hb)

theorem Course.lineAgrees (h : Course root mem heap done s) {start : DevState arch}
    (hprepared : Prepared root mem heap probers nodes start) (hsuits : start.bootTable.Suits probers nodes)
    (hsub : ∀ a' ∈ done ++ [a], a' ∈ pairs probers nodes)
    : s.LineAgrees nodes a := by
  intro bootTable parent irqNum dev inner irqManager hmap hregisters htable
  have ha : a ∈ pairs probers nodes := hsub a (List.mem_append_right _ (List.mem_singleton_self a))
  obtain ⟨node, startingAddress, size, hdone, hphandle, hregion, hnew⟩ := h.entry htable
  have hplic := hsub _ (List.mem_append_left _ hdone)
  obtain ⟨_, hnode, hmatches⟩ := mem_pairs.mp hplic
  have hexact := h.mapAll hprepared.pages hprepared.inMem (hsuits.below a ha) hmap
  have htranslates : Translates (done ++ [a]) start { s with bootTable } :=
    translates_of_exact hexact hprepared.bootTable fun a' ha' => hsuits.below a' (hsub a' ha')
  have hhas : HasLine nodes parent irqNum ↔
      DevProber.plic.Window node (startingAddress + PlicOffset.priority irqNum) := by
    constructor
    . intro hhas
      obtain ⟨_, _, hsame, hwindow⟩ := hhas node hnode hmatches hphandle
      rw [hregion] at hsame
      cases hsame
      exact hwindow
    . intro hwindow node' hnode' hmatches' hphandle'
      have hsame := hsuits.handles node' hnode' node hnode hmatches' hmatches (hphandle'.trans hphandle.symm)
      refine ⟨startingAddress, size, hsame.trans hregion, ?_⟩
      obtain ⟨addr, haddr, hdiv⟩ := hwindow
      refine ⟨addr, ?_, hdiv⟩
      simp only [DevProber.addrs, hregion] at haddr
      simp only [DevProber.addrs, hsame.trans hregion]
      exact haddr
  rw [hhas, accessible, PlicInner.addr_priorityReg hnew]
  constructor
  . intro haccessible
    obtain hwindow | ⟨hother, hnone⟩ := hsuits.lines a ha hregisters node hnode hmatches hphandle _ _ hregion
    . exact hwindow
    . rw [htranslates.other _ fun a' ha' => hother a' (hsub a' ha'), hnone] at haccessible
      cases haccessible
  . intro hwindow
    rw [regAt_deviceAddr, Option.isSome_iff_exists]
    exact ⟨_, (htranslates.device _ (window_lt (hsuits.below _ hplic) hwindow) _).mpr
      ⟨rfl, (.plic, node), List.mem_append_left _ hdone, hwindow⟩⟩

end DevState

end

section

variable (sort : SortUnstable (@ExclusiveIntervals.byPosAndDelta arch.bits)) (kernelEnd : VirtAddr arch)

theorem DevState.drives {root : PhysFrame arch} {mem : Memory arch} {heap : List (PhysFrame arch)}
    {probers : List DevProber} {nodes : List FdtNode} {start : DevState arch}
    (hprepared : Prepared root mem heap probers nodes start) (hsuits : start.bootTable.Suits probers nodes)
    : (DevProber.stages arch nodes).Drives (DevState.probe sort kernelEnd) DevState.handles fun s as =>
        ∃ done, Course root mem heap done s ∧ (∀ a ∈ done ++ as, a ∈ pairs probers nodes) ∧
          frames arch as ≤ s.bootTable.heap.length where
  iff := by
    rintro s a as ⟨done, hcourse, hsub, hframes⟩
    simp only [frames, List.map_cons, List.sum_cons] at hframes
    have hagrees : s.LineAgrees nodes a := hcourse.lineAgrees hprepared hsuits fun a' ha' => hsub a' (by
      rw [List.mem_append, List.mem_cons]
      rcases List.mem_append.mp ha' with hdone | hlast
      . exact .inl hdone
      . exact .inr (.inl (List.mem_singleton.mp hlast)))
    constructor
    . rintro ⟨s', hprobe⟩
      exact (probe_iff.mp hprobe).needs hagrees
    . intro hneeds
      obtain ⟨s', hprobes⟩ := exists_probes hagrees hneeds (by omega)
      exact ⟨s', probe_iff.mpr hprobes⟩
  room := by
    rintro s s' a as ⟨done, hcourse, hsub, hframes⟩ hprobe
    simp only [frames, List.map_cons, List.sum_cons] at hframes
    have hheap := (probe_iff.mp hprobe).heap (by omega)
    have ha : a ∈ pairs probers nodes := hsub a (List.mem_append_right _ List.mem_cons_self)
    refine ⟨done ++ [a], hcourse.next hprepared.pages hprepared.inMem (hsuits.below a ha) (probe_iff.mp hprobe), ?_,
      by rw [frames]; omega⟩
    rwa [List.append_assoc, List.singleton_append]
  found hprobe := (probe_iff.mp hprobe).handles

theorem probeAllDevice_iff {probers : List DevProber} {nodes : List FdtNode} {s s' : DevState arch}
    : probeAllDevice sort kernelEnd probers nodes s = .next s' ↔
        ∃ rest, (DevProber.intc :: .plic :: .memory :: rest).Perm probers ∧
          arrange probers = .next (.intc :: .plic :: .memory :: rest) ∧
            exec (DevState.probe sort kernelEnd) s (pairs (.intc :: .plic :: .memory :: rest) nodes) = .next s' := by
  rw [probeAllDevice]
  obtain ⟨hnext, hpanic⟩ := arrange_next_iff probers
  by_cases h : .intc ∈ probers ∧ .plic ∈ probers ∧ .memory ∈ probers
  . obtain ⟨rest, harrange, hperm⟩ := hnext h
    rw [harrange]
    simp only [exec_flatMap, pairs, Outcome.next.injEq]
    constructor
    . intro hexec
      exact ⟨rest, hperm, rfl, hexec⟩
    . rintro ⟨rest', _, heq, hexec⟩
      rwa [heq]
  . rw [hpanic h]
    simp

section

variable {root : PhysFrame arch} {mem : Memory arch} {heap : List (PhysFrame arch)} {probers rest : List DevProber}
  {nodes : List FdtNode} {s : DevState arch} (hnodup : probers.Nodup)
  (hprepared : s.Prepared root mem heap probers nodes) (hsuits : s.bootTable.Suits probers nodes)

include hnodup hprepared hsuits

theorem exists_exec_iff (hperm : (DevProber.intc :: .plic :: .memory :: rest).Perm probers)
    : (∃ s', exec (DevState.probe sort kernelEnd) s (pairs (.intc :: .plic :: .memory :: rest) nodes) = .next s') ↔
        ∀ prober ∈ probers, ∀ node ∈ nodes, prober.matches node = true →
          prober.Needs arch nodes (plicHandles nodes) node := by
  have hframes : frames arch (pairs (.intc :: .plic :: .memory :: rest) nodes) ≤ s.bootTable.heap.length := by
    rw [frames_pairs_perm hperm, hprepared.bootTable]
    exact hprepared.frames
  have hsub : ∀ a ∈ [] ++ pairs (.intc :: .plic :: .memory :: rest) nodes, a ∈ pairs probers nodes :=
    fun a ha => (mem_pairs_perm hperm).mp ha
  have hhandles : s.handles ∪ plicHandles nodes = plicHandles nodes := by
    rw [Set.union_eq_right]
    intro phandle hsome
    have hsome : (s.irqTable phandle).isSome = true := hsome
    rw [hprepared.irqTable] at hsome
    cases hsome
  rw [(DevState.drives sort kernelEnd hprepared hsuits).exec_iff ⟨[], hprepared.course, hsub, hframes⟩,
    ready_pairs (hperm.nodup_iff.mpr hnodup), hhandles]
  constructor
  . intro hneeds prober hprober node hnode hmatches
    exact hneeds (prober, node) (mem_pairs.mpr ⟨hperm.mem_iff.mpr hprober, hnode, hmatches⟩)
  . intro hneeds a ha
    obtain ⟨hprober, hnode, hmatches⟩ := mem_pairs.mp ha
    exact hneeds _ (hperm.mem_iff.mp hprober) _ hnode hmatches

theorem exists_probeAllDevice (hthree : .intc ∈ probers ∧ .plic ∈ probers ∧ .memory ∈ probers)
    (hneeds : ∀ prober ∈ probers, ∀ node ∈ nodes, prober.matches node = true →
      prober.Needs arch nodes (plicHandles nodes) node)
    : ∃ s', probeAllDevice sort kernelEnd probers nodes s = .next s' := by
  obtain ⟨rest, harrange, hperm⟩ := (arrange_next_iff probers).1 hthree
  obtain ⟨s', hexec⟩ := (exists_exec_iff sort kernelEnd hnodup hprepared hsuits hperm).mpr hneeds
  exact ⟨s', (probeAllDevice_iff sort kernelEnd).mpr ⟨rest, hperm, harrange, hexec⟩⟩

end

end

-- Some nodes of the larger machine, the controllers of the interrupts behind those that are connected to them.
namespace VirtTree

def node : FdtNode :=
  {
    compatible := [], deviceType := none, reg := none, interrupts := none, phandle := .missing
    interruptParent := none, transport := .other
  }

def memory : FdtNode :=
  { node with deviceType := some "memory", reg := some [⟨0x80000000, some 0x8000000⟩] }

def serial : FdtNode :=
  {
    node with
    compatible := ["ns16550a"], reg := some [⟨0x10000000, some 0x100⟩], interrupts := some [10]
    interruptParent := some (.value 3)
  }

def virtioMmio : FdtNode :=
  {
    node with
    compatible := ["virtio,mmio"], reg := some [⟨0x10008000, some 0x1000⟩], interrupts := some [8]
    interruptParent := some (.value 3), transport := .network true
  }

def plic : FdtNode :=
  {
    node with
    compatible := ["sifive,plic-1.0.0", "riscv,plic0"], reg := some [⟨0xc000000, some 0x600000⟩]
    phandle := .value 3
  }

def intc : FdtNode := { node with compatible := ["riscv,cpu-intc"], phandle := .value 2 }

def nodes : List FdtNode := [serial, virtioMmio, memory, intc, plic]

def probers : List DevProber := [.memory, .ns16550a, .virtioMmio, .intc, .plic]

def kernelEnd : VirtAddr .riscv64 := PhysAddr.toVirt (0x80400000 : PhysAddr .riscv64)

def root : PhysFrame .riscv64 := PageTable.frameAt .riscv64 0x80200000

def heap : List (PhysFrame .riscv64) :=
  (List.range 4096).map fun i => PageTable.frameAt .riscv64 (0x82000000 + 0x1000 * i)

def start : DevState .riscv64 where
  globalIntc := false
  plicPhandle := none
  irqTable := fun _ => none
  regs := fun _ => 0
  bootTable := (BootPageTable.zeroed root (fun _ _ => .clr) heap).init
  heap := []
  eth0 := none

theorem pairs_eq
    : DevProber.pairs probers nodes =
        [(.memory, memory), (.ns16550a, serial), (.virtioMmio, virtioMmio), (.intc, intc), (.plic, plic)] := by
  decide

theorem frames_le : DevProber.frames .riscv64 (DevProber.pairs probers nodes) ≤ heap.length := by
  have hplic : DevProber.plic.addrs plic = Driver.plic.addrs 0xc000000 0x600000 := rfl
  have hcount : (DevProber.plic.addrs plic).length = 1536 := by
    rw [hplic, Driver.addrs, List.length_map, List.length_range, pageSize]
  have hheap : heap.length = 4096 := by rw [heap, List.length_map, List.length_range]
  have hdepth : PageTable.depth .riscv64 = 2 := by decide
  rw [pairs_eq, hheap, DevProber.frames]
  simp only [List.map_cons, List.map_nil, List.sum_cons, List.sum_nil, hcount, hdepth]
  decide

theorem toNat_heapFrame {i : Nat} (hi : i < 4096)
    : (PageTable.frameAt .riscv64 (0x82000000 + 0x1000 * i)).addr.toNat = 0x82000000 + 0x1000 * i := by
  have htoNat : (0x82000000 + 0x1000 * i) % 2 ^ 64 / 4096 * 4096 = 0x82000000 + 0x1000 * i := by omega
  rw [PageTable.frameAt, toNat_alignPageDown, BitVec.toNat_ofNat]
  exact htoNat

theorem nodup_pages : (root :: heap).Nodup := by
  rw [List.nodup_cons]
  constructor
  . intro hmem
    obtain ⟨i, hi, heq⟩ := List.mem_map.mp hmem
    have htoNat := toNat_heapFrame (List.mem_range.mp hi)
    have hroot : root.addr.toNat = 0x80200000 := by decide
    rw [heq, hroot] at htoNat
    omega
  . apply List.nodup_range.map_on
    intro i hi j hj heq
    have htoNat := toNat_heapFrame (List.mem_range.mp hi)
    rw [heq, toNat_heapFrame (List.mem_range.mp hj)] at htoNat
    omega

theorem inMem_heap : ∀ page ∈ heap, page.addr.InMem := by
  intro page hpage
  obtain ⟨i, hi, rfl⟩ := List.mem_map.mp hpage
  have hlt := List.mem_range.mp hi
  rw [PhysAddr.InMem, toNat_heapFrame hlt]
  simp only [Arch.physMemBase, Arch.physMemLimit]
  omega

theorem addrs_lt : ∀ a ∈ pairs probers nodes, ∀ addr ∈ a.1.addrs a.2, addr < 0x10009000 := by
  have hplic : ∀ addr ∈ DevProber.plic.addrs plic, addr < 0x10009000 := by
    intro addr haddr
    obtain ⟨i, hi, rfl⟩ := List.mem_map.mp haddr
    have hlt := List.mem_range.mp hi
    simp only [pageSize] at hlt ⊢
    omega
  rw [pairs_eq]
  simp only [List.forall_mem_cons]
  exact ⟨by decide, by decide, by decide, by decide, hplic, by simp⟩

theorem addrs_lt_physMemBase
    : ∀ a ∈ pairs probers nodes, ∀ addr ∈ a.1.addrs a.2, addr < Arch.physMemBase .riscv64 :=
  fun a ha addr haddr => (addrs_lt a ha addr haddr).trans (by decide)

theorem prepared : start.Prepared root (fun _ _ => .clr) heap probers nodes :=
  ⟨nodup_pages, inMem_heap, rfl, frames_le, fun _ => rfl⟩

theorem eq_plic {node : FdtNode} (hnode : node ∈ nodes) (hmatches : DevProber.plic.matches node = true)
    : node = plic := by
  simp only [nodes, List.mem_cons, List.not_mem_nil, or_false] at hnode
  obtain rfl | rfl | rfl | rfl | rfl := hnode
  . cases hmatches
  . cases hmatches
  . cases hmatches
  . cases hmatches
  . rfl

theorem window_priority {irqNum : Nat} (hlt : irqNum < 1024)
    : DevProber.plic.Window plic (0xc000000 + PlicOffset.priority irqNum) := by
  rw [plic_window_iff (show plic.region = some (0xc000000, 0x600000) from rfl)]
  simp only [PlicOffset.priority, pageSize]
  omega

theorem suits : start.bootTable.Suits probers nodes := by
  constructor
  case below => exact addrs_lt_physMemBase
  case handles =>
    intro node hnode node' hnode' hmatches hmatches' _
    rw [eq_plic hnode hmatches, eq_plic hnode' hmatches']
  case lines =>
    intro a ha phandle irqNum dev hregisters node hnode hmatches _ startingAddress size hregion
    obtain rfl := eq_plic hnode hmatches
    cases hregion
    refine .inl (window_priority ?_)
    rw [pairs_eq] at ha
    simp only [List.mem_cons, List.not_mem_nil, or_false] at ha
    obtain rfl | rfl | rfl | rfl | rfl := ha
    . cases hregisters
    . cases hregisters
      decide
    . cases hregisters
      decide
    . cases hregisters
    . cases hregisters

theorem hasLine {irqNum : Nat} (hlt : irqNum < 1024) : DevProber.HasLine nodes 3 irqNum := by
  intro node hnode hmatches _
  obtain rfl := eq_plic hnode hmatches
  exact ⟨0xc000000, 0x600000, rfl, window_priority hlt⟩

theorem needs
    : ∀ prober ∈ probers, ∀ node ∈ nodes, prober.matches node = true →
        prober.Needs .riscv64 nodes (DevProber.plicHandles nodes) node := by
  have hhandle : 3 ∈ DevProber.plicHandles nodes := ⟨plic, by decide, by decide, rfl⟩
  intro prober hprober node hnode hmatches
  have hpair : (prober, node) ∈ DevProber.pairs probers nodes :=
    DevProber.mem_pairs.mpr ⟨hprober, hnode, hmatches⟩
  rw [pairs_eq] at hpair
  simp only [List.mem_cons, List.not_mem_nil, or_false, Prod.mk.injEq] at hpair
  obtain ⟨rfl, rfl⟩ | ⟨rfl, rfl⟩ | ⟨rfl, rfl⟩ | ⟨rfl, rfl⟩ | ⟨rfl, rfl⟩ := hpair
  . rfl
  . exact ⟨rfl, 10, 3, rfl, rfl, hhandle, hasLine (by decide)⟩
  . exact ⟨⟨_, _, rfl, by decide⟩, by decide, 8, 3, rfl, rfl, fun _ => ⟨hhandle, hasLine (by decide)⟩⟩
  . trivial
  . exact ⟨⟨3, rfl⟩, 0xc000000, 0x600000, rfl, by decide, by decide⟩

theorem exists_probed {sort : SortUnstable (@ExclusiveIntervals.byPosAndDelta Arch.riscv64.bits)}
    : ∃ s', probeAllDevice sort kernelEnd probers nodes start = .next s' :=
  exists_probeAllDevice _ _ (by decide) prepared suits (by decide) needs

end VirtTree

end Jrinx
