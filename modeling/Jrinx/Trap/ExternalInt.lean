import Jrinx.Driver.Plic

/-!
This module contains the handling of external interrupts from `handle_kern_trap` in
`trap/src/arch/riscv/mod.rs` down to the interrupt controller, together with the counters of
`driver/src/irq/irq_dispatch.rs` that it updates.
-/

namespace Jrinx

structure IrqSystem where
  mode : BuildMode
  rootCompatible : RootCompatible
  freq : Nat
  -- The arguments of `info!` are only evaluated at this log level.
  infoEnabled : Bool
  -- `GLOBAL_INTC` is set.
  globalIntc : Bool
  -- The entry of `IRQ_TABLE` at `PLIC_PHANDLE`.
  plic : Option Plic
  irqCount : Nat → Option Int
  interruptCount : Option (List Nat)
  -- The sources that were enabled so far.
  sources : List Nat

-- A trap on a CPU, with the value that it reads from the claim register and the ticks at which the trap,
-- the handler of the device and the end of the trap read the clock.
structure ExternalTrap where
  cpuId : Nat
  claim : Nat
  startTicks : Nat
  handlerTicks : Nat
  finishTicks : Nat
  deriving DecidableEq, Repr

namespace IrqSystem

def cpuCount : Nat := 5

def probed (mode : BuildMode) (rootCompatible : RootCompatible) (freq : Nat) (infoEnabled : Bool)
    (regs : Nat → BitVec 32) : IrqSystem :=
  {
    mode, rootCompatible, freq, infoEnabled
    globalIntc := true
    plic := some { regs, irqManager := .new Plic.irqRange, accesses := [] }
    irqCount := fun _ => none
    interruptCount := none
    sources := []
  }

def enable (sys : IrqSystem) (cpuId irqNum : Nat) : IrqM IrqSystem := do
  let plic ← IrqM.unwrap sys.plic
  let plic ← plic.enable sys.mode sys.rootCompatible cpuId irqNum
  return { sys with plic := some plic, sources := irqNum :: sys.sources }

def disable (sys : IrqSystem) (cpuId irqNum : Nat) : IrqM IrqSystem := do
  let plic ← IrqM.unwrap sys.plic
  let plic ← plic.disable sys.mode sys.rootCompatible cpuId irqNum
  return { sys with plic := some plic }

def registerDevice (sys : IrqSystem) (irqNum : Nat) (dev : IrqDevice) : IrqM IrqSystem := do
  let plic ← IrqM.unwrap sys.plic
  let plic ← plic.registerDevice sys.mode irqNum dev
  return { sys with plic := some plic }

-- The rebalancing sets the count of a source back.
def resetCount (sys : IrqSystem) (irqNum : Nat) : IrqM IrqSystem := do
  let _ ← IrqM.unwrap (sys.irqCount irqNum)
  return { sys with irqCount := Function.update sys.irqCount irqNum (some 0) }

def initStrategy (sys : IrqSystem) (cpuId : Nat) : IrqM IrqSystem := do
  let sys :=
    {
      sys with
      interruptCount := some (sys.interruptCount.getD (List.replicate cpuCount 0))
      irqCount := Function.update (Function.update sys.irqCount 8 (some 0)) 10 (some 0)
    }
  let sys ← sys.enable cpuId 8
  sys.enable cpuId 10

def plicHandleIrq (sys : IrqSystem) (t : ExternalTrap) : IrqM (Duration × IrqSystem) := do
  let plic ← IrqM.unwrap sys.plic
  let (claimed, plic) ← plic.getCurrentCpuClaim sys.rootCompatible t.cpuId t.claim
  match claimed with
  | some irqNum =>
    let count ← IrqM.unwrap (sys.irqCount irqNum)
    let count ← sys.mode.addI32 count 1
    let startTime ← plic.irqManager.handleIrq sys.mode sys.freq t.handlerTicks irqNum
    let plic ← plic.endOfInterrupt sys.mode sys.rootCompatible t.cpuId irqNum
    let irqCount := Function.update sys.irqCount irqNum (some count)
    return (startTime, { sys with plic := some plic, irqCount })
  | none => return (.zero, { sys with plic := some plic })

def intcHandleIrq (sys : IrqSystem) (t : ExternalTrap) : IrqM (Duration × IrqSystem) := do
  let (startTime, sys) ← sys.plicHandleIrq t
  let counts ← IrqM.unwrap sys.interruptCount
  let count ← IrqM.unwrap counts[t.cpuId]?
  let count ← sys.mode.addU8 count 1
  return (startTime, { sys with interruptCount := some (counts.set t.cpuId count) })

def handleKernTrap (sys : IrqSystem) (t : ExternalTrap) : IrqM IrqSystem := do
  let trapStartTime ← sys.mode.getTime sys.freq t.startTicks
  if sys.globalIntc = false then
    throw (.panic .unwrapNone)
  else
    let (handleStartTime, sys) ← sys.intcHandleIrq t
    let trapFinishedTime ← sys.mode.getTime sys.freq t.finishTicks
    let _ ← trapFinishedTime.subM trapStartTime
    if sys.infoEnabled then
      let _ ← handleStartTime.subM trapStartTime
      return sys
    else
      return sys

end IrqSystem

inductive IrqAction where
  | trap (t : ExternalTrap)
  | enable (cpuId irqNum : Nat)
  | disable (cpuId irqNum : Nat)
  | registerDevice (irqNum : Nat) (dev : IrqDevice)
  | resetCount (irqNum : Nat)

namespace IrqSystem

-- The ticks do not go back, and a source is not claimed if it was never enabled.
def Possible (sys : IrqSystem) (t : ExternalTrap) : Prop :=
  (t.startTicks ≤ t.handlerTicks ∧ t.handlerTicks ≤ t.finishTicks) ∧
    (t.claim = 0 ∨ t.claim ∈ sys.sources)

instance (sys : IrqSystem) (t : ExternalTrap) : Decidable (sys.Possible t) :=
  inferInstanceAs (Decidable (_ ∧ _))

def call (sys : IrqSystem) (a : IrqAction) : IrqM IrqSystem :=
  match a with
  | .trap t => if sys.Possible t then sys.handleKernTrap t else throw .disabled
  | .enable cpuId irqNum => sys.enable cpuId irqNum
  | .disable cpuId irqNum => sys.disable cpuId irqNum
  | .registerDevice irqNum dev => sys.registerDevice irqNum dev
  | .resetCount irqNum => sys.resetCount irqNum

def step (sys : IrqSystem) (a : IrqAction) : Outcome IrqSystem := .ofExcept (sys.call a)

end IrqSystem

end Jrinx
