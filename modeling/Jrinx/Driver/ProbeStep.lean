import Jrinx.Driver.DevProbe

/-!
This module contains all that the probe of a node can do, and what it needs for that.
-/

namespace Jrinx

variable {arch : Arch}

namespace ExclusiveIntervalsIter

variable {w : Nat}

theorem next.go_total {sum : BitVec w} {left : Option Nat} {l : List (Nat × BitVec w)}
    (h : hot sum = true → left.isSome = true)
    : ∃ o it, next.go sum left l = .next (o, it) ∧ (o.isSome = true → hot it.sum = false) := by
  fun_induction next.go sum left l with
  | case1 => exact ⟨none, _, rfl, by simp⟩
  | case2 _ _ _ _ _ _ _ _ ih => exact ih fun _ => rfl
  | case3 old pos delta l _ sum _ hfall =>
    have hold : hot old = true := (Bool.and_eq_true_iff.mp hfall).1
    exact absurd (h hold) (by simp)
  | case4 old pos delta l _ sum _ hfall start =>
    refine ⟨some _, _, rfl, fun _ => ?_⟩
    have hsle : sum.sle 0 = true := (Bool.and_eq_true_iff.mp hfall).2
    rw [BitVec.sle_eq_not_slt] at hsle
    simpa [hot] using hsle
  | case5 old left pos delta l _ sum hrise hfall ih =>
    apply ih
    intro hsum
    apply h
    by_contra hold
    apply hrise
    rw [BitVec.sle_eq_not_slt]
    simp only [hot, Bool.not_eq_true] at hold hsum
    exact Bool.and_eq_true_iff.mpr ⟨congrArg (!·) hold, hsum⟩

theorem exists_collect {it : ExclusiveIntervalsIter w} (h : hot it.sum = false)
    : ∃ out, it.collect = .next out := by
  induction hlen : it.intoIter.length using Nat.strongRecOn generalizing it with
  | ind n ih =>
    have hstart : hot it.sum = true → (none : Option Nat).isSome = true := by simp [h]
    obtain ⟨o, it', hnext, hsum⟩ := next.go_total (l := it.intoIter) hstart
    cases o with
    | none => exact ⟨[], collect_of_next_none hnext⟩
    | some b =>
      have hlt := next.go_length hnext
      obtain ⟨out, hout⟩ := ih _ (by omega) (hsum rfl) rfl
      exact ⟨b :: out, by rw [collect_of_next_some hnext, hout]; rfl⟩

end ExclusiveIntervalsIter

theorem exists_heapRegions (sort : SortUnstable (@ExclusiveIntervals.byPosAndDelta arch.bits))
    (kernelEnd : VirtAddr arch) (regions : List MemoryRegion)
    : ∃ bounds, heapRegions sort kernelEnd regions = .next bounds := by
  induction regions with
  | nil => exact ⟨[], rfl⟩
  | cons region regions ih =>
    obtain ⟨bounds, hbounds⟩ := ih
    rw [heapRegions]
    split
    . exact ⟨bounds, hbounds⟩
    . next size _ =>
      have hzero : ExclusiveIntervalsIter.hot (0 : BitVec arch.bits) = false := by
        simp [ExclusiveIntervalsIter.hot, BitVec.slt_eq_decide]
      let it := ExclusiveIntervals.intoIter sort ([kernelBound kernelEnd].foldl ExclusiveIntervals.subAssign
        (ExclusiveIntervals.new arch.bits [regionBound arch region.startingAddress size]))
      obtain ⟨out, hout⟩ : ∃ out, it.collect = .next out := ExclusiveIntervalsIter.exists_collect hzero
      rw [ExclusiveIntervals.iterate, hout, hbounds]
      exact ⟨out ++ bounds, rfl⟩

namespace BootPageTable

variable {b : BootPageTable arch}

-- A call of `map` takes at most one frame for each level below of the root.
theorem exists_map (virt : VirtAddr arch) (phys : PhysAddr arch) (h : PageTable.depth arch ≤ b.heap.length)
    : ∃ b', b.map virt phys = .next b' ∧ b.heap.length ≤ b'.heap.length + PageTable.depth arch := by
  have hlen := VirtAddr.length_path (alignPageDown virt)
  obtain ⟨leaf, hleaf⟩ : ∃ leaf, (grow b.mem b.root.addr.toVirt (VirtAddr.path (alignPageDown virt))
      b.heap).page = some leaf := by
    apply Option.isSome_iff_exists.mp
    apply RadixTree.isSome_page_grow
    rwa [hlen]
  refine ⟨_, by rw [map, VirtAddr.indexes_eq_path_leaf, map_go_eq, hleaf], ?_⟩
  have hcreated : (grow b.mem b.root.addr.toVirt (VirtAddr.path (alignPageDown virt))
      b.heap).created.length ≤ (VirtAddr.path (alignPageDown virt)).length :=
    RadixTree.length_created_le _ _ _ _
  dsimp only
  rw [List.length_drop]
  omega

theorem map_go_ne_disabled {phys : PhysAddr arch} {indexes : List Nat} {base : VirtAddr arch}
    : map.go phys b base indexes ≠ .disabled := by
  induction indexes generalizing b base with
  | nil => simp [map.go]
  | cons i indexes ih =>
    cases indexes with
    | nil => simp [map.go]
    | cons j indexes =>
      simp only [map.go]
      split
      . exact ih
      . split
        . simp
        . exact ih

theorem mapAll_ne_disabled {addrs : List Nat} : b.mapAll addrs ≠ .disabled := by
  induction addrs generalizing b with
  | nil => simp [mapAll]
  | cons addr addrs ih =>
    simp only [mapAll]
    split
    . exact ih
    . simp
    . next h => exact absurd h map_go_ne_disabled

theorem probe_some (driver : Driver) (startingAddress size : Nat)
    : b.probe ⟨driver, ⟨startingAddress, some size⟩⟩ = b.mapAll (driver.addrs startingAddress size) := rfl

theorem exists_mapAll (addrs : List Nat) (h : addrs.length * PageTable.depth arch ≤ b.heap.length)
    : ∃ b', b.mapAll addrs = .next b' ∧
        b.heap.length ≤ b'.heap.length + addrs.length * PageTable.depth arch := by
  induction addrs generalizing b with
  | nil => exact ⟨b, rfl, by simp⟩
  | cons addr addrs ih =>
    rw [List.length_cons, Nat.succ_mul] at h ⊢
    obtain ⟨b₁, hfirst, hlen⟩ := exists_map (deviceAddr arch addr) (BitVec.ofNat _ addr)
      (show PageTable.depth arch ≤ b.heap.length by omega)
    obtain ⟨b', hrest, hlen'⟩ := ih (b := b₁) (by omega)
    refine ⟨b', ?_, by omega⟩
    rw [mapAll, hfirst]
    exact hrest

end BootPageTable

namespace DevProber

def addrs (prober : DevProber) (node : FdtNode) : List Nat :=
  match prober, node.region with
  | .plic, some (startingAddress, size) => Driver.plic.addrs startingAddress size
  | .ns16550a, some (startingAddress, size) => Driver.ns16550a.addrs startingAddress size
  | .virtioMmio, some (startingAddress, size) => Driver.virtioMmio.addrs startingAddress size
  | _, _ => []

def Window (prober : DevProber) (node : FdtNode) (x : Nat) : Prop :=
  ∃ addr ∈ prober.addrs node, addr / pageSize = x / pageSize

-- The priority register of the interrupt is on the pages of the controller.
def HasLine (nodes : List FdtNode) (phandle irqNum : Nat) : Prop :=
  ∀ node ∈ nodes, DevProber.plic.matches node = true → node.phandle = .value phandle →
    ∃ startingAddress size, node.region = some (startingAddress, size) ∧
      DevProber.plic.Window node (startingAddress + PlicOffset.priority irqNum)

def registers (prober : DevProber) (node : FdtNode) : Option (Nat × Nat × IrqDevice) :=
  match prober with
  | .ns16550a => do return (← node.parent, ← node.irqNum, .ns16550a)
  | .virtioMmio =>
    match node.transport with
    | .network _ => do return (← node.parent, ← node.irqNum, .virtioNet)
    | _ => none
  | _ => none

theorem registers_ns16550a {node : FdtNode} {irqNum parent : Nat} (hirq : node.irqNum = some irqNum)
    (hparent : node.parent = some parent)
    : registers .ns16550a node = some (parent, irqNum, .ns16550a) := by
  simp only [registers, hparent, hirq]
  rfl

theorem registers_virtioMmio {node : FdtNode} {irqNum parent : Nat} (hirq : node.irqNum = some irqNum)
    (hparent : node.parent = some parent) {setUp : Bool} (htransport : node.transport = .network setUp)
    : registers .virtioMmio node = some (parent, irqNum, .virtioNet) := by
  simp only [registers, htransport, hparent, hirq]
  rfl

/--
What a probe needs: the properties that it reads, and the controller that it registers its device at, with a register
for the priority of the interrupt.
-/
def Needs (arch : Arch) (nodes : List FdtNode) (handles : Set Nat) (prober : DevProber) (node : FdtNode) : Prop :=
  match prober with
  | .intc => True
  | .plic =>
    (∃ phandle, node.phandle = .value phandle) ∧
      ∃ addr size, node.region = some (addr, size) ∧ addr % 4 = 0 ∧ 0x201000 ≤ size
  | .memory => node.reg.isSome = true
  | .ns16550a =>
    node.region.isSome = true ∧ ∃ irqNum parent, node.irqNum = some irqNum ∧ node.parent = some parent ∧
      parent ∈ handles ∧ HasLine nodes parent irqNum
  | .virtioMmio =>
    (∃ addr size, node.region = some (addr, size) ∧ deviceAddr arch addr ≠ 0) ∧ node.transport ≠ .network false ∧
      ∃ irqNum parent, node.irqNum = some irqNum ∧ node.parent = some parent ∧
        (node.transport = .network true → parent ∈ handles ∧ HasLine nodes parent irqNum)

def adds (prober : DevProber) (node : FdtNode) : Set Nat :=
  {phandle | prober = .plic ∧ node.phandle = .value phandle}

theorem adds_of_ne {prober : DevProber} {node : FdtNode} (h : prober ≠ .plic) : prober.adds node = ∅ := by
  simp [adds, h]

end DevProber

namespace DevState

variable {s s' : DevState arch} {sort : SortUnstable (@ExclusiveIntervals.byPosAndDelta arch.bits)}
  {kernelEnd : VirtAddr arch} {a : DevProber × FdtNode}

def handles (s : DevState arch) : Set Nat := {phandle | (s.irqTable phandle).isSome = true}

def registered (s : DevState arch) (parent irqNum : Nat) (dev : IrqDevice) (inner : PlicInner arch)
    (irqManager : IrqManager)
    : DevState arch :=
  { s with
    regs := s.regs.write (inner.priorityBase.add irqNum) 7
    irqTable := Function.update s.irqTable parent (some (inner, irqManager.registerDevice irqNum dev)) }

theorem registerDevice_eq (s : DevState arch) (parent irqNum : Nat) (dev : IrqDevice)
    : s.registerDevice parent irqNum dev =
        match s.irqTable parent with
        | none => .panic
        | some (inner, irqManager) =>
          if s.accessible (inner.priorityBase.add irqNum) then
            .next (s.registered parent irqNum dev inner irqManager)
          else
            .panic := by
  rw [registerDevice]
  cases s.irqTable parent with
  | none => rfl
  | some entry => rfl

inductive Probes (sort : SortUnstable (@ExclusiveIntervals.byPosAndDelta arch.bits)) (kernelEnd : VirtAddr arch)
    (s : DevState arch) : DevProber × FdtNode → DevState arch → Prop where
  | intc (node : FdtNode) : Probes sort kernelEnd s (.intc, node) { s with globalIntc := true }
  | plic {node : FdtNode} {startingAddress size phandle maxId : Nat} {bootTable : BootPageTable arch}
      {inner : PlicInner arch} (hregion : node.region = some (startingAddress, size))
      (hphandle : node.phandle = .value phandle)
      (hmap : s.bootTable.mapAll (Driver.plic.addrs startingAddress size) = .next bootTable)
      (hnew : PlicInner.new (deviceAddr arch startingAddress) = some inner)
      (hmax : contextMaxId size = some maxId)
    : Probes sort kernelEnd s (.plic, node)
        { s with
          bootTable
          regs := inner.init s.regs maxId
          irqTable := Function.update s.irqTable phandle (some (inner, .new Plic.irqRange))
          plicPhandle := s.plicPhandle <|> some phandle }
  | memory {node : FdtNode} {regions : List MemoryRegion} {bounds : List Bound} (hreg : node.reg = some regions)
      (hbounds : heapRegions sort kernelEnd regions = .next bounds)
    : Probes sort kernelEnd s (.memory, node) { s with heap := s.heap ++ bounds }
  | ns16550a {node : FdtNode} {startingAddress size irqNum parent : Nat} {bootTable : BootPageTable arch}
      {inner : PlicInner arch} {irqManager : IrqManager}
      (hregion : node.region = some (startingAddress, size)) (hirq : node.irqNum = some irqNum)
      (hparent : node.parent = some parent)
      (hmap : s.bootTable.mapAll (Driver.ns16550a.addrs startingAddress size) = .next bootTable)
      (htable : s.irqTable parent = some (inner, irqManager))
      (hline : { s with bootTable }.accessible (inner.priorityBase.add irqNum) = true)
    : Probes sort kernelEnd s (.ns16550a, node)
        ({ s with bootTable }.registered parent irqNum .ns16550a inner irqManager)
  | virtioMmio {node : FdtNode} {startingAddress size irqNum parent : Nat} {bootTable : BootPageTable arch}
      (hregion : node.region = some (startingAddress, size)) (hirq : node.irqNum = some irqNum)
      (hparent : node.parent = some parent)
      (hmap : s.bootTable.mapAll (Driver.virtioMmio.addrs startingAddress size) = .next bootTable)
      (hheader : deviceAddr arch startingAddress ≠ 0) (htransport : ∀ setUp, node.transport ≠ .network setUp)
    : Probes sort kernelEnd s (.virtioMmio, node) { s with bootTable }
  | virtioNet {node : FdtNode} {startingAddress size irqNum parent : Nat} {bootTable : BootPageTable arch}
      {inner : PlicInner arch} {irqManager : IrqManager}
      (hregion : node.region = some (startingAddress, size)) (hirq : node.irqNum = some irqNum)
      (hparent : node.parent = some parent)
      (hmap : s.bootTable.mapAll (Driver.virtioMmio.addrs startingAddress size) = .next bootTable)
      (hheader : deviceAddr arch startingAddress ≠ 0) (htransport : node.transport = .network true)
      (htable : s.irqTable parent = some (inner, irqManager))
      (hline : { s with bootTable }.accessible (inner.priorityBase.add irqNum) = true)
    : Probes sort kernelEnd s (.virtioMmio, node)
        { { s with bootTable }.registered parent irqNum .virtioNet inner irqManager with
          eth0 := s.eth0 <|> some startingAddress }

theorem probePlic_iff {node : FdtNode}
    : s.probePlic node = .next s' ↔ Probes sort kernelEnd s (.plic, node) s' := by
  constructor
  . intro h
    rw [probePlic] at h
    split at h
    next startingAddress size phandle hregion hphandle =>
      split at h
      next bootTable hmap =>
        split at h
        next inner maxId hnew hmax =>
          rw [← Outcome.next.inj h]
          exact .plic hregion hphandle hmap hnew hmax
        next => simp at h
      next => simp at h
      next => simp at h
    next => simp at h
  . rintro (_ | ⟨hregion, hphandle, hmap, hnew, hmax⟩)
    simp only [probePlic, hregion, hphandle, BootPageTable.probe_some, hmap, hnew, hmax]

theorem probeMemory_iff {node : FdtNode}
    : s.probeMemory sort kernelEnd node = .next s' ↔ Probes sort kernelEnd s (.memory, node) s' := by
  constructor
  . intro h
    rw [probeMemory] at h
    split at h
    next => simp at h
    next regions hreg =>
      obtain ⟨bounds, hbounds, rfl⟩ := Outcome.map_eq_next h
      exact .memory hreg hbounds
  . rintro (_ | _ | ⟨hreg, hbounds⟩)
    simp only [probeMemory, hreg, hbounds, Outcome.map_next]

theorem registerDevice_next_iff {parent irqNum : Nat} {dev : IrqDevice}
    : s.registerDevice parent irqNum dev = .next s' ↔
        ∃ inner irqManager, s.irqTable parent = some (inner, irqManager) ∧
          s.accessible (inner.priorityBase.add irqNum) = true ∧
          s.registered parent irqNum dev inner irqManager = s' := by
  rw [registerDevice_eq]
  cases s.irqTable parent with
  | none => simp
  | some entry =>
    obtain ⟨inner, irqManager⟩ := entry
    by_cases hline : s.accessible (inner.priorityBase.add irqNum) = true
    . simp [hline]
    . simp [hline]

theorem probeNs16550a_iff {node : FdtNode}
    : s.probeNs16550a node = .next s' ↔ Probes sort kernelEnd s (.ns16550a, node) s' := by
  constructor
  . intro h
    rw [probeNs16550a] at h
    split at h
    next startingAddress size irqNum parent hregion hirq hparent =>
      split at h
      next bootTable hmap =>
        obtain ⟨inner, irqManager, htable, hline, rfl⟩ := registerDevice_next_iff.mp h
        exact .ns16550a hregion hirq hparent hmap htable hline
      next => simp at h
      next => simp at h
    next => simp at h
  . rintro (_ | _ | _ | ⟨hregion, hirq, hparent, hmap, htable, hline⟩)
    simp only [probeNs16550a, hregion, hirq, hparent, BootPageTable.probe_some, hmap, registerDevice_eq, htable,
      hline, if_true]

theorem probeVirtioMmio_iff {node : FdtNode}
    : s.probeVirtioMmio node = .next s' ↔ Probes sort kernelEnd s (.virtioMmio, node) s' := by
  constructor
  . intro h
    rw [probeVirtioMmio] at h
    split at h
    next startingAddress size irqNum parent hregion hirq hparent =>
      split at h
      next bootTable hmap =>
        split at h
        next => simp at h
        next hheader =>
          split at h
          next htransport =>
            rw [← Outcome.next.inj h]
            exact .virtioMmio hregion hirq hparent hmap hheader (by simp [htransport])
          next htransport =>
            rw [← Outcome.next.inj h]
            exact .virtioMmio hregion hirq hparent hmap hheader (by simp [htransport])
          next => simp at h
          next htransport =>
            obtain ⟨s₁, hregister, rfl⟩ := Outcome.map_eq_next h
            obtain ⟨inner, irqManager, htable, hline, rfl⟩ := registerDevice_next_iff.mp hregister
            exact .virtioNet hregion hirq hparent hmap hheader htransport htable hline
      next => simp at h
      next => simp at h
    next => simp at h
  . rintro (_ | _ | _ | _ | ⟨hregion, hirq, hparent, hmap, hheader, htransport⟩ |
      ⟨hregion, hirq, hparent, hmap, hheader, htransport, htable, hline⟩)
    . simp only [probeVirtioMmio, hregion, hirq, hparent, BootPageTable.probe_some, hmap, if_neg hheader]
      cases hanswer : node.transport with
      | error => rfl
      | other => rfl
      | network setUp => exact absurd hanswer (htransport setUp)
    . simp only [probeVirtioMmio, hregion, hirq, hparent, BootPageTable.probe_some, hmap, if_neg hheader,
        htransport, registerDevice_eq, htable, hline, if_true, Outcome.map_next]
      rfl

theorem probe_iff : s.probe sort kernelEnd a = .next s' ↔ Probes sort kernelEnd s a s' := by
  obtain ⟨prober, node⟩ := a
  cases prober with
  | intc =>
    constructor
    . intro h
      rw [← Outcome.next.inj h]
      exact .intc node
    . rintro ⟨⟩
      rfl
  | plic => exact probePlic_iff
  | memory => exact probeMemory_iff
  | ns16550a => exact probeNs16550a_iff
  | virtioMmio => exact probeVirtioMmio_iff

theorem registerDevice_ne_disabled (s : DevState arch) (parent irqNum : Nat) (dev : IrqDevice)
    : s.registerDevice parent irqNum dev ≠ .disabled := by
  rw [registerDevice_eq]
  split
  . simp
  . split <;> simp

theorem probe_ne_disabled (s : DevState arch) (a : DevProber × FdtNode) : s.probe sort kernelEnd a ≠ .disabled := by
  obtain ⟨prober, node⟩ := a
  cases prober with
  | intc => simp [probe]
  | plic =>
    simp only [probe, probePlic]
    split
    . split
      . split <;> simp
      . simp
      . next h => exact absurd h BootPageTable.mapAll_ne_disabled
    . simp
  | memory =>
    simp only [probe, probeMemory]
    split
    . simp
    . next regions _ =>
      obtain ⟨bounds, hbounds⟩ := exists_heapRegions sort kernelEnd regions
      simp [hbounds]
  | ns16550a =>
    simp only [probe, probeNs16550a]
    split
    . split
      . exact registerDevice_ne_disabled _ _ _ _
      . simp
      . next h => exact absurd h BootPageTable.mapAll_ne_disabled
    . simp
  | virtioMmio =>
    simp only [probe, probeVirtioMmio]
    split
    . split
      . split
        . simp
        . split
          . simp
          . simp
          . simp
          . rw [ne_eq, Outcome.map_eq_disabled_iff]
            exact registerDevice_ne_disabled _ _ _ _
      . simp
      . next h => exact absurd h BootPageTable.mapAll_ne_disabled
    . simp

theorem contextMaxId_isSome {size : Nat} : (∃ maxId, contextMaxId size = some maxId) ↔ 0x201000 ≤ size := by
  rw [contextMaxId]
  split <;> simp_all

end DevState

theorem deviceAddr_mod_four (arch : Arch) (addr : Nat) : (deviceAddr arch addr).toNat % 4 = addr % 4 := by
  rw [toNat_deviceAddr]
  cases arch with
  | riscv32 =>
    have h : (addr + 0xD0000000) % 2 ^ 32 % 4 = addr % 4 := by omega
    exact h
  | riscv64 =>
    have h : (addr + 0xFFFFFFFF00000000) % 2 ^ 64 % 4 = addr % 4 := by omega
    exact h

theorem PlicInner.exists_new_iff {addr : Nat}
    : (∃ inner, PlicInner.new (deviceAddr arch addr) = some inner) ↔ addr % 4 = 0 := by
  rw [← deviceAddr_mod_four arch]
  constructor
  . rintro ⟨inner, hnew⟩
    have hbase : inner.priorityBase.addr = deviceAddr arch addr + BitVec.ofNat _ 0 := (new_eq_some hnew).1
    rw [← inner.priorityBase.aligned, hbase, BitVec.add_zero]
  . exact exists_new

namespace DevState

open DevProber (registers_ns16550a registers_virtioMmio)

variable {s s' : DevState arch} {sort : SortUnstable (@ExclusiveIntervals.byPosAndDelta arch.bits)}
  {kernelEnd : VirtAddr arch} {a : DevProber × FdtNode}

theorem Probes.maps (h : Probes sort kernelEnd s a s')
    : s.bootTable.mapAll (a.1.addrs a.2) = .next s'.bootTable := by
  cases h with
  | intc | memory => rfl
  | plic hregion hphandle hmap hnew hmax =>
    simp only [DevProber.addrs, hregion]
    exact hmap
  | ns16550a hregion hirq hparent hmap htable hline =>
    simp only [DevProber.addrs, hregion]
    exact hmap
  | virtioMmio hregion hirq hparent hmap hheader htransport =>
    simp only [DevProber.addrs, hregion]
    exact hmap
  | virtioNet hregion hirq hparent hmap hheader htransport htable hline =>
    simp only [DevProber.addrs, hregion]
    exact hmap

-- When its pages are mapped, the probe can access the register for the priority of its interrupt exactly if the
-- controller has one.
def LineAgrees (s : DevState arch) (nodes : List FdtNode) (a : DevProber × FdtNode) : Prop :=
  ∀ {bootTable parent irqNum dev inner irqManager}, s.bootTable.mapAll (a.1.addrs a.2) = .next bootTable →
    a.1.registers a.2 = some (parent, irqNum, dev) → s.irqTable parent = some (inner, irqManager) →
      ({ s with bootTable }.accessible (inner.priorityBase.add irqNum) = true ↔ DevProber.HasLine nodes parent irqNum)

theorem Probes.needs (h : Probes sort kernelEnd s a s') {nodes : List FdtNode} (hagrees : s.LineAgrees nodes a)
    : a.1.Needs arch nodes s.handles a.2 := by
  have hmaps := h.maps
  cases h with
  | intc node => trivial
  | plic hregion hphandle hmap hnew hmax =>
    exact ⟨⟨_, hphandle⟩, _, _, hregion, PlicInner.exists_new_iff.mp ⟨_, hnew⟩, contextMaxId_isSome.mp ⟨_, hmax⟩⟩
  | memory hreg hbounds => exact Option.isSome_of_eq_some hreg
  | ns16550a hregion hirq hparent hmap htable hline =>
    exact ⟨Option.isSome_of_eq_some hregion, _, _, hirq, hparent, Option.isSome_of_eq_some htable,
      (hagrees hmaps (registers_ns16550a hirq hparent) htable).mp hline⟩
  | virtioMmio hregion hirq hparent hmap hheader htransport =>
    exact ⟨⟨_, _, hregion, hheader⟩, htransport false, _, _, hirq, hparent, fun h => absurd h (htransport true)⟩
  | virtioNet hregion hirq hparent hmap hheader htransport htable hline =>
    exact ⟨⟨_, _, hregion, hheader⟩, by simp [htransport], _, _, hirq, hparent, fun _ =>
      ⟨Option.isSome_of_eq_some htable,
        (hagrees hmaps (registers_virtioMmio hirq hparent htransport) htable).mp hline⟩⟩

theorem exists_probes {nodes : List FdtNode} (hagrees : s.LineAgrees nodes a)
    (hneeds : a.1.Needs arch nodes s.handles a.2)
    (hframes : (a.1.addrs a.2).length * PageTable.depth arch ≤ s.bootTable.heap.length)
    : ∃ s', Probes sort kernelEnd s a s' := by
  obtain ⟨prober, node⟩ := a
  obtain ⟨bootTable, hmap, _⟩ := BootPageTable.exists_mapAll _ hframes
  cases prober with
  | intc => exact ⟨_, .intc node⟩
  | plic =>
    obtain ⟨⟨phandle, hphandle⟩, addr, size, hregion, haligned, hsize⟩ := hneeds
    obtain ⟨inner, hnew⟩ := PlicInner.exists_new_iff.mpr haligned
    obtain ⟨maxId, hmax⟩ := contextMaxId_isSome.mpr hsize
    simp only [DevProber.addrs, hregion] at hmap
    exact ⟨_, .plic hregion hphandle hmap hnew hmax⟩
  | memory =>
    obtain ⟨regions, hreg⟩ := Option.isSome_iff_exists.mp hneeds
    obtain ⟨bounds, hbounds⟩ := exists_heapRegions sort kernelEnd regions
    exact ⟨_, .memory hreg hbounds⟩
  | ns16550a =>
    obtain ⟨hregion, irqNum, parent, hirq, hparent, hhandle, hhas⟩ := hneeds
    obtain ⟨⟨addr, size⟩, hregion⟩ := Option.isSome_iff_exists.mp hregion
    obtain ⟨⟨inner, irqManager⟩, htable⟩ := Option.isSome_iff_exists.mp hhandle
    have haccessible := (hagrees hmap (registers_ns16550a hirq hparent) htable).mpr hhas
    simp only [DevProber.addrs, hregion] at hmap
    exact ⟨_, .ns16550a hregion hirq hparent hmap htable haccessible⟩
  | virtioMmio =>
    obtain ⟨⟨addr, size, hregion, hheader⟩, hsetUp, irqNum, parent, hirq, hparent, hnetwork⟩ := hneeds
    by_cases htransport : node.transport = .network true
    . obtain ⟨hhandle, hhas⟩ := hnetwork htransport
      obtain ⟨⟨inner, irqManager⟩, htable⟩ := Option.isSome_iff_exists.mp hhandle
      have haccessible := (hagrees hmap (registers_virtioMmio hirq hparent htransport) htable).mpr hhas
      simp only [DevProber.addrs, hregion] at hmap
      exact ⟨_, .virtioNet hregion hirq hparent hmap hheader htransport htable haccessible⟩
    . simp only [DevProber.addrs, hregion] at hmap
      refine ⟨_, .virtioMmio hregion hirq hparent hmap hheader ?_⟩
      rintro (_ | _)
      . exact hsetUp
      . exact htransport

theorem handles_registered {parent irqNum : Nat} {dev : IrqDevice} {inner : PlicInner arch}
    {irqManager : IrqManager} (htable : s.irqTable parent = some (inner, irqManager))
    : (s.registered parent irqNum dev inner irqManager).handles = s.handles := by
  ext phandle
  simp only [DevState.handles, registered, Function.update_apply, Set.mem_ofPred_eq]
  split
  next h => simp [h, htable]
  next => rfl

theorem Probes.handles (h : Probes sort kernelEnd s a s') : s'.handles = s.handles ∪ a.1.adds a.2 := by
  by_cases hplic : a.1 = .plic
  . cases h with
    | plic hregion hphandle hmap hnew hmax =>
      ext phandle
      simp only [DevState.handles, DevProber.adds, Function.update_apply, hphandle, Set.mem_union,
        Set.mem_ofPred_eq, true_and, UsizeProperty.value.injEq]
      split
      next h => simp [h]
      next h => simp [Ne.symm h]
    | intc | memory | ns16550a | virtioMmio | virtioNet => cases hplic
  . rw [DevProber.adds_of_ne hplic, Set.union_empty]
    cases h with
    | plic hregion hphandle hmap hnew hmax => exact absurd rfl hplic
    | ns16550a hregion hirq hparent hmap htable hline => exact handles_registered htable
    | virtioNet hregion hirq hparent hmap hheader htransport htable hline => exact handles_registered htable
    | intc | memory | virtioMmio => rfl

theorem Probes.heap (h : Probes sort kernelEnd s a s')
    (hframes : (a.1.addrs a.2).length * PageTable.depth arch ≤ s.bootTable.heap.length)
    : s.bootTable.heap.length ≤
        s'.bootTable.heap.length + (a.1.addrs a.2).length * PageTable.depth arch := by
  obtain ⟨bootTable, hall, hlen⟩ := BootPageTable.exists_mapAll _ hframes
  rw [h.maps, Outcome.next.injEq] at hall
  rwa [hall]

end DevState

end Jrinx
