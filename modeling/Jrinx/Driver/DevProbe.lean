import Jrinx.Driver.PlicInner
import Jrinx.Driver.Probe
import Jrinx.Paging.BootMapping
import Jrinx.Util.Interval
import Jrinx.Util.SwapTo

/-!
This module contains the probing of the devices: `probe_all_device` of `devprober/src/lib.rs` and the probers of
the drivers. The device tree is given by the properties that the probers read, its root is compatible with
something. Addresses wrap around, and there are no debug assertions, as in a release build. An access to a register
whose address is not translated is a page fault, the pages of a device are mapped before its own probe accesses
them. All errors are unwrapped by `probe_all`.
-/

namespace Jrinx

variable {arch : Arch}

inductive DevIdent where
  | deviceType (deviceType : String)
  | compatible (compatible : String)
  deriving DecidableEq, Repr

-- The probers of the drivers, each of them is in a section of the linker.
inductive DevProber where
  | intc
  | plic
  | memory
  | ns16550a
  | virtioMmio
  deriving DecidableEq, Repr

def DevProber.ident (prober : DevProber) : DevIdent :=
  match prober with
  | .intc => .compatible "riscv,cpu-intc"
  | .plic => .compatible "sifive,plic-1.0.0"
  | .memory => .deviceType "memory"
  | .ns16550a => .compatible "ns16550a"
  | .virtioMmio => .compatible "virtio,mmio"

-- A property that is read with `as_usize`.
inductive UsizeProperty where
  | missing
  | malformed
  | value (n : Nat)
  deriving DecidableEq, Repr

-- What the registers of a virtio device answer, and whether its queues can be set up then.
inductive VirtioTransport where
  | error
  | other
  | network (setUp : Bool)
  deriving DecidableEq, Repr

structure FdtNode where
  compatible : List String
  deviceType : Option String
  reg : Option (List MemoryRegion)
  interrupts : Option (List Nat)
  phandle : UsizeProperty
  -- The property `phandle` of the interrupt parent.
  interruptParent : Option UsizeProperty
  transport : VirtioTransport
  deriving DecidableEq, Repr

namespace FdtNode

def region (node : FdtNode) : Option (Nat × Nat) := do
  let region ← (← node.reg).head?
  return (region.startingAddress, ← region.size)

def irqNum (node : FdtNode) : Option Nat := do
  (← node.interrupts).head?

def parent (node : FdtNode) : Option Nat :=
  match node.interruptParent with
  | some (.value phandle) => some phandle
  | _ => none

end FdtNode

def DevProber.matches (prober : DevProber) (node : FdtNode) : Bool :=
  match prober.ident with
  | .deviceType deviceType => node.deviceType == some deviceType
  | .compatible compatible => node.compatible.any (· == compatible)

structure DevState (arch : Arch) where
  globalIntc : Bool
  plicPhandle : Option Nat
  irqTable : Nat → Option (PlicInner arch × IrqManager)
  regs : PlicRegs arch
  bootTable : BootPageTable arch
  -- What the heap has been enlarged with.
  heap : List Bound
  -- The address of the device that has become `eth0`.
  eth0 : Option Nat

namespace DevProber

def isIntc (prober : DevProber) : Bool := prober.ident = .compatible "riscv,cpu-intc"

def isPlic (prober : DevProber) : Bool :=
  prober.ident = .compatible "sifive,plic-1.0.0" || prober.ident = .compatible "riscv,plic0"

def isMemory (prober : DevProber) : Bool := prober.ident = .deviceType "memory"

-- The interrupt controllers and the memory come first.
def arrange (probers : List DevProber) : Outcome (List DevProber) :=
  match swapTo isIntc 0 probers with
  | .next probers =>
    match swapTo isPlic 1 probers with
    | .next probers => swapTo isMemory 2 probers
    | .panic => .panic
    | .disabled => .disabled
  | .panic => .panic
  | .disabled => .disabled

end DevProber

-- From `driver/src/mem.rs`: the memory from its start up to the end of the kernel.
def kernelBound (kernelEnd : VirtAddr arch) : Bound :=
  let base := PhysAddr.toVirt (BitVec.ofNat arch.bits arch.physMemBase)
  let alignPageUp := alignPageDown (kernelEnd + BitVec.ofNat arch.bits (pageSize - 1))
  { start := base.toNat, len := (alignPageUp - base).toNat }

def regionBound (arch : Arch) (startingAddress size : Nat) : Bound :=
  { start := (PhysAddr.toVirt (BitVec.ofNat arch.bits startingAddress)).toNat, len := size }

def heapRegions (sort : SortUnstable (@ExclusiveIntervals.byPosAndDelta arch.bits)) (kernelEnd : VirtAddr arch)
    (regions : List MemoryRegion)
    : Outcome (List Bound) :=
  match regions with
  | [] => .next []
  | region :: regions =>
    match region.size with
    | none => heapRegions sort kernelEnd regions
    | some size =>
      match ExclusiveIntervals.iterate sort [regionBound arch region.startingAddress size]
        [kernelBound kernelEnd] with
      | .next bounds => (heapRegions sort kernelEnd regions).map (bounds ++ ·)
      | .panic => .panic
      | .disabled => .disabled

namespace DevState

-- The last context in the region of the controller. There is none where the subtractions wrap around: the loop
-- over the contexts then runs through all addresses and comes to one that is not mapped.
def contextMaxId (size : Nat) : Option Nat :=
  if 0x201000 ≤ size then some ((size - 0x200000) / 0x1000 - 1) else none

-- The registers are accessed through the boot page table.
def accessible (s : DevState arch) (m : Mmio arch) : Bool := (s.bootTable.translate m.addr).isSome

def registerDevice (s : DevState arch) (parent irqNum : Nat) (dev : IrqDevice) : Outcome (DevState arch) :=
  match s.irqTable parent with
  -- the `unwrap` of the look-up
  | none => .panic
  | some (inner, irqManager) =>
    if s.accessible (inner.priorityBase.add irqNum) then
      match inner.setPriority .release s.regs irqNum 7 with
      | .ok regs =>
        let irqTable := Function.update s.irqTable parent (some (inner, irqManager.registerDevice irqNum dev))
        .next { s with regs, irqTable }
      | .error _ => .panic
    else
      .panic

def probePlic (s : DevState arch) (node : FdtNode) : Outcome (DevState arch) :=
  match node.region, node.phandle with
  | some (startingAddress, size), .value phandle =>
    match s.bootTable.probe ⟨.plic, ⟨startingAddress, some size⟩⟩ with
    | .next bootTable =>
      match PlicInner.new (deviceAddr arch startingAddress), contextMaxId size with
      | some inner, some contextMaxId =>
        .next
          { s with
            bootTable
            regs := inner.init s.regs contextMaxId
            irqTable := Function.update s.irqTable phandle (some (inner, .new Plic.irqRange))
            plicPhandle := s.plicPhandle <|> some phandle }
      -- the assertion of `from_base`, or a page fault
      | _, _ => .panic
    | .panic => .panic
    | .disabled => .disabled
  | _, _ => .panic

def probeMemory (s : DevState arch) (sort : SortUnstable (@ExclusiveIntervals.byPosAndDelta arch.bits))
    (kernelEnd : VirtAddr arch) (node : FdtNode)
    : Outcome (DevState arch) :=
  match node.reg with
  | none => .panic
  | some regions => (heapRegions sort kernelEnd regions).map fun bounds => { s with heap := s.heap ++ bounds }

def probeNs16550a (s : DevState arch) (node : FdtNode) : Outcome (DevState arch) :=
  match node.region, node.irqNum, node.parent with
  | some (startingAddress, size), some irqNum, some parent =>
    match s.bootTable.probe ⟨.ns16550a, ⟨startingAddress, some size⟩⟩ with
    | .next bootTable => { s with bootTable }.registerDevice parent irqNum .ns16550a
    | .panic => .panic
    | .disabled => .disabled
  | _, _, _ => .panic

def probeVirtioMmio (s : DevState arch) (node : FdtNode) : Outcome (DevState arch) :=
  match node.region, node.irqNum, node.parent with
  | some (startingAddress, size), some irqNum, some parent =>
    match s.bootTable.probe ⟨.virtioMmio, ⟨startingAddress, some size⟩⟩ with
    | .next bootTable =>
      -- the `unwrap` of the pointer to the header
      if deviceAddr arch startingAddress = 0 then
        .panic
      else
        match node.transport with
        | .error => .next { s with bootTable }
        | .other => .next { s with bootTable }
        | .network false => .panic
        | .network true =>
          ({ s with bootTable }.registerDevice parent irqNum .virtioNet).map fun (s : DevState arch) =>
            { s with eth0 := s.eth0 <|> some startingAddress }
    | .panic => .panic
    | .disabled => .disabled
  | _, _, _ => .panic

end DevState

section Probe

variable (sort : SortUnstable (@ExclusiveIntervals.byPosAndDelta arch.bits)) (kernelEnd : VirtAddr arch)

def DevState.probe (s : DevState arch) (a : DevProber × FdtNode) : Outcome (DevState arch) :=
  match a.1 with
  | .intc => .next { s with globalIntc := true }
  | .plic => s.probePlic a.2
  | .memory => s.probeMemory sort kernelEnd a.2
  | .ns16550a => s.probeNs16550a a.2
  | .virtioMmio => s.probeVirtioMmio a.2

def probeAllDevice (probers : List DevProber) (nodes : List FdtNode) (s : DevState arch)
    : Outcome (DevState arch) :=
  match DevProber.arrange probers with
  | .next probers =>
    exec (fun s prober => exec (fun s node => s.probe sort kernelEnd (prober, node)) s
      (nodes.filter prober.matches)) s probers
  | .panic => .panic
  | .disabled => .disabled

end Probe

end Jrinx
