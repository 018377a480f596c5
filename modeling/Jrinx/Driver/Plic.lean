import Jrinx.Hal.Timer
import Jrinx.Util.BuildMode

/-!
This module contains the interrupt controller of `driver/src/irq/riscv_plic.rs` with the devices that are
registered at it, from `driver/src/irq/irq_manager.rs`. The value that is read from a claim register comes
from the device, here it is an argument.
-/

namespace Jrinx

inductive IrqPanic where
  | unwrapNone
  | unknownRoot
  | invalidCpu
  | debugAssert
  -- An overflow of an integer in a debug build.
  | overflow
  -- A duration is subtracted from a shorter one.
  | durationUnderflow
  deriving DecidableEq, Repr

abbrev IrqM := Except (Halt IrqPanic)

namespace BuildMode

def debugAssert (mode : BuildMode) (p : Prop) [Decidable p] : IrqM Unit :=
  mode.check .debugAssert p

def addU8 (mode : BuildMode) (n m : Nat) : IrqM Nat :=
  if n + m < 2 ^ 8 then
    return n + m
  else
    match mode with
    | .debug => throw (.panic .overflow)
    | .release => return (n + m) % 2 ^ 8

def addI32 (mode : BuildMode) (n m : Int) : IrqM Int :=
  if -2 ^ 31 ≤ n + m ∧ n + m < 2 ^ 31 then
    return n + m
  else
    match mode with
    | .debug => throw (.panic .overflow)
    | .release => return (n + m).bmod (2 ^ 32)

def getTime (mode : BuildMode) (freq ticks : Nat) : IrqM Duration :=
  if mode = .debug ∧ freq ≠ 0 ∧ 2 ^ 64 ≤ ticks * 10 ^ 9 then
    throw (.panic .overflow)
  else
    return Cpu.getTime freq ticks

end BuildMode

def IrqM.unwrap {α : Type} (o : Option α) : IrqM α :=
  match o with
  | some a => return a
  | none => throw (.panic .unwrapNone)

def Duration.subM (a b : Duration) : IrqM Duration :=
  match a.sub b with
  | some d => return d
  | none => throw (.panic .durationUnderflow)

inductive RootCompatible where
  | riscvVirtio
  | sifive
  | other
  deriving DecidableEq, Repr

def getContextId (root : RootCompatible) (cpuId : Nat) : IrqM Nat :=
  match root with
  | .riscvVirtio => return cpuId * 2 + 1
  | .sifive => if cpuId = 0 then throw (.panic .invalidCpu) else return cpuId * 2
  | .other => throw (.panic .unknownRoot)

inductive IrqDevice where
  | ns16550a
  | virtioNet
  deriving DecidableEq, Repr

structure IrqManager where
  -- The end is not part of the range.
  irqRange : Nat × Nat
  table : Nat → Option (Option IrqDevice)

-- Both handlers begin with reading the clock and return that time.
def IrqDevice.handleIrq (dev : IrqDevice) (mode : BuildMode) (freq ticks : Nat) : IrqM Duration :=
  match dev with
  | .ns16550a => mode.getTime freq ticks
  | .virtioNet => mode.getTime freq ticks

namespace IrqManager

def new (irqRange : Nat × Nat) : IrqManager := { irqRange, table := fun _ => none }

def contains (manager : IrqManager) (irqNum : Nat) : Prop :=
  (manager.irqRange.1 ≤ irqNum ∧ irqNum < manager.irqRange.2) ∧ irqNum ≠ 0

instance (manager : IrqManager) (irqNum : Nat) : Decidable (manager.contains irqNum) :=
  inferInstanceAs (Decidable (_ ∧ _))

def registerDevice (manager : IrqManager) (irqNum : Nat) (dev : IrqDevice) : IrqManager :=
  if manager.contains irqNum then
    { manager with table := Function.update manager.table irqNum (some (some dev)) }
  else
    manager

def handleIrq (manager : IrqManager) (mode : BuildMode) (freq ticks irqNum : Nat) : IrqM Duration :=
  if manager.contains irqNum then
    match manager.table irqNum with
    | some dev => do
      let dev ← IrqM.unwrap dev
      dev.handleIrq mode freq ticks
    | none => return .zero
  else
    return .zero

end IrqManager

inductive ClaimAccess where
  | claim (contextId irqNum : Nat)
  | complete (contextId irqNum : Nat)
  deriving DecidableEq, Repr

structure Plic where
  -- The registers as words, the claim registers aside.
  regs : Nat → BitVec 32
  irqManager : IrqManager
  -- The reads and writes of the claim registers so far.
  accesses : List ClaimAccess

namespace Plic

def irqRange : Nat × Nat := (1, 1024)

def isValid (irqNum : Nat) : Prop := irqRange.1 ≤ irqNum ∧ irqNum < irqRange.2

instance (irqNum : Nat) : Decidable (isValid irqNum) := inferInstanceAs (Decidable (_ ∧ _))

def enableWord (contextId irqNum : Nat) : Nat := 0x2000 / 4 + contextId * (0x80 / 4) + irqNum / 32

def thresholdWord (contextId : Nat) : Nat := 0x200000 / 4 + contextId * (0x1000 / 4)

def write (plic : Plic) (word : Nat) (value : BitVec 32) : Plic :=
  { plic with regs := Function.update plic.regs word value }

def setThreshold (plic : Plic) (contextId : Nat) (threshold : BitVec 8) : Plic :=
  plic.write (thresholdWord contextId) (threshold.setWidth 32)

def setPriority (plic : Plic) (mode : BuildMode) (irqNum : Nat) (priority : BitVec 8) : IrqM Plic := do
  mode.debugAssert (isValid irqNum)
  return plic.write irqNum (priority.setWidth 32)

def enable (plic : Plic) (mode : BuildMode) (root : RootCompatible) (cpuId irqNum : Nat) : IrqM Plic := do
  let contextId ← getContextId root cpuId
  mode.debugAssert (isValid irqNum)
  let content := plic.regs (enableWord contextId irqNum)
  let plic := plic.write (enableWord contextId irqNum) (1#32 <<< (irqNum % 32) ||| content)
  return plic.setThreshold contextId 0

def disable (plic : Plic) (mode : BuildMode) (root : RootCompatible) (cpuId irqNum : Nat) : IrqM Plic := do
  let contextId ← getContextId root cpuId
  mode.debugAssert (isValid irqNum)
  let content := plic.regs (enableWord contextId irqNum)
  return plic.write (enableWord contextId irqNum) (~~~(1#32 <<< (irqNum % 32)) &&& content)

def registerDevice (plic : Plic) (mode : BuildMode) (irqNum : Nat) (dev : IrqDevice) : IrqM Plic :=
  { plic with irqManager := plic.irqManager.registerDevice irqNum dev }.setPriority mode irqNum 7

def getCurrentCpuClaim (plic : Plic) (root : RootCompatible) (cpuId claim : Nat)
    : IrqM (Option Nat × Plic) := do
  let contextId ← getContextId root cpuId
  let plic := { plic with accesses := plic.accesses ++ [.claim contextId claim] }
  return (if claim = 0 then none else some claim, plic)

def endOfInterrupt (plic : Plic) (mode : BuildMode) (root : RootCompatible) (cpuId irqNum : Nat)
    : IrqM Plic := do
  mode.debugAssert (isValid irqNum)
  let contextId ← getContextId root cpuId
  return { plic with accesses := plic.accesses ++ [.complete contextId irqNum] }

end Plic

end Jrinx
