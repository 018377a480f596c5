import Jrinx.Multitask.Runtime
import Jrinx.TimedEvent.Tracker
import Jrinx.Trap.ExternalInt
import Jrinx.Util.StableSort

/-!
This module contains the strategies of `driver/src/irq/irq_dispatch.rs`, which route the interrupts of the
network and of the serial port to the CPUs: timed events that disable both sources everywhere and enable them
on one CPU each.
-/

namespace Jrinx

inductive DispatchPanic where
  | irq (why : Halt IrqPanic)
  | outOfBounds
  | durationOverflow
  deriving DecidableEq, Repr

inductive DispatchClosure where
  | minLoadStrategyEvent
  | minCountCpuStrategyEvent
  -- The empty closure for a cancelled event.
  | cancel
  deriving DecidableEq, Repr

structure DispatchSystem where
  irq : IrqSystem
  -- The runtimes by their CPUs.
  cpus : Nat → Runtime
  timedEvents : TimedEvents DispatchClosure

-- After a panic the system is as it was when it happened.
abbrev DispatchM := EStateM DispatchPanic DispatchSystem

def BuildMode.mulI32 (mode : BuildMode) (n m : Int) : IrqM Int :=
  if -2 ^ 31 ≤ n * m ∧ n * m < 2 ^ 31 then
    return n * m
  else
    match mode with
    | .debug => throw (.panic .overflow)
    | .release => return (n * m).bmod (2 ^ 32)

def Inspector.runningTaskPriority (is : Inspector) : Except InternalError TaskPriority :=
  match is.status with
  | .running executorId => (is.withExecutor executorId fun ex => (ex.currentTaskPriority, ex)).1
  | _ => .error .invalidRuntimeStatus

def Runtime.runningTaskPriority (rt : Runtime) : Except InternalError TaskPriority :=
  match rt.status with
  | .running inspectorId =>
    match rt.withInspector inspectorId fun is => (is.runningTaskPriority, is) with
    | .ok (priority, _) => priority
    | .error e => .error e
  | _ => .error .invalidRuntimeStatus

namespace DispatchSystem

def withSpecCpu {α : Type} (s : DispatchSystem) (cpuId : Nat) (f : Runtime → Except InternalError α)
    : Except InternalError α :=
  if (s.cpus cpuId).status = .unused then
    .error .invalidRuntimeStatus
  else
    f (s.cpus cpuId)

-- There is none if the CPU does not run a task.
def taskPriority (s : DispatchSystem) (cpuId : Nat) : Option Nat :=
  match s.withSpecCpu cpuId Runtime.runningTaskPriority with
  | .ok priority => some priority.pri.val
  | .error _ => none

end DispatchSystem

namespace DispatchM

def ofIrq {α : Type} (m : IrqM α) : DispatchM α :=
  match m with
  | .ok a => return a
  | .error why => throw (.irq why)

def modifyIrq (f : IrqSystem → IrqM IrqSystem) : DispatchM Unit := do
  let s ← get
  let irq ← ofIrq (f s.irq)
  set { s with irq }

def enable (cpuId irqNum : Nat) : DispatchM Unit := modifyIrq (·.enable cpuId irqNum)

def disable (cpuId irqNum : Nat) : DispatchM Unit := modifyIrq (·.disable cpuId irqNum)

def index {α : Type} (l : List α) (i : Nat) : DispatchM α :=
  match l[i]? with
  | some a => return a
  | none => throw .outOfBounds

def takeCount (irqNum : Nat) : DispatchM Int := do
  let s ← get
  let count ← ofIrq (IrqM.unwrap (s.irq.irqCount irqNum))
  modifyIrq (·.resetCount irqNum)
  return count

end DispatchM

namespace IrqDispatch

open DispatchM

def timeInterval : Nat := 1

def uartLoad : Int := 1

def netLoad : Int := 4

-- The event is created on the CPU that makes the call, where the clock shows these ticks.
def createEvent (timeout : DispatchClosure) (cpuId ticks : Nat) : DispatchM Unit := do
  let s ← get
  let now ← ofIrq (s.irq.mode.getTime s.irq.freq ticks)
  match now.add (.fromNanos (timeInterval * 10 ^ 9)) with
  | some time =>
    set { s with timedEvents := s.timedEvents.create cpuId time { timeout, cancel := .cancel } }
  | none => throw .durationOverflow

def minLoadStrategy (cpuId ticks : Nat) : DispatchM Unit := createEvent .minLoadStrategyEvent cpuId ticks

def minCountStrategy (cpuId ticks : Nat) : DispatchM Unit := createEvent .minCountCpuStrategyEvent cpuId ticks

-- The map of the priorities, as the list of its entries: the CPUs come in the order of their ids.
def readPriority (priorities : List (Nat × Nat)) (cpuId : Nat) : DispatchM (List (Nat × Nat)) := do
  let s ← get
  match s.taskPriority cpuId with
  | some priority => return priorities ++ [(cpuId, priority)]
  | none => return priorities

def disableBoth (cpuId : Nat) : DispatchM Unit := do
  disable cpuId 10
  disable cpuId 8

def disableAndRead (priorities : List (Nat × Nat)) (cpuId : Nat) : DispatchM (List (Nat × Nat)) := do
  disableBoth cpuId
  readPriority priorities cpuId

def route (cpus : List (Nat × Nat)) (irqNum irqNum' : Nat) : DispatchM Unit := do
  let first ← index cpus 0
  enable first.1 irqNum
  let second ← index cpus 1
  enable second.1 irqNum'

def minLoadStrategyEvent (cpuId ticks : Nat) : DispatchM Unit := do
  let cpuTaskPriority ← (List.range IrqSystem.cpuCount).foldlM disableAndRead []
  let cpuTaskPriVec := sortBy Prod.snd cpuTaskPriority
  let netCount ← takeCount 8
  let uartCount ← takeCount 10
  let mode := (← get).irq.mode
  let netIrqLoad ← ofIrq (mode.mulI32 netLoad netCount)
  let uartIrqLoad ← ofIrq (mode.mulI32 uartLoad uartCount)
  if netIrqLoad > uartIrqLoad then
    route cpuTaskPriVec 8 10
  else
    route cpuTaskPriVec 10 8
  minLoadStrategy cpuId ticks

def disableAndWeigh (interruptCount : List Nat) (cpuTaskPriority cpuLoad : List (Nat × Nat)) (cpuId : Nat)
    : DispatchM (List (Nat × Nat)) := do
  disableBoth cpuId
  let curInterruptCount ← ofIrq (IrqM.unwrap interruptCount[cpuId]?)
  let curTaskPri ← ofIrq (IrqM.unwrap (cpuTaskPriority.lookup cpuId))
  return cpuLoad ++ [(cpuId, curInterruptCount ||| curTaskPri <<< 16)]

def minCountCpuStrategyEvent (cpuId ticks : Nat) : DispatchM Unit := do
  let cpuTaskPriority ← (List.range IrqSystem.cpuCount).foldlM readPriority []
  let s ← get
  let interruptCount ← ofIrq (IrqM.unwrap s.irq.interruptCount)
  let cpuLoad ← (List.range IrqSystem.cpuCount).foldlM (disableAndWeigh interruptCount cpuTaskPriority) []
  route (sortBy Prod.snd cpuLoad) 8 10
  minCountStrategy cpuId ticks

end IrqDispatch

end Jrinx
