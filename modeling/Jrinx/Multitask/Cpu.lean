import Jrinx.Multitask.Runtime

/-!
This module contains the scheduling loops: `Runtime::start` with both run loops, `Inspector::run` and
the way into and out of `wfi`, as the steps of one CPU.

A step is what happens under one lock. Between two steps anything may happen that the other CPUs, an
interrupt or the running executor can do, so the actions of a CPU contain the public operations on
its runtime.
-/

namespace Jrinx

open Std

inductive InspectorPc where
  | dequeue
  | setCurrent (id : ExecutorId)
  -- Look up the context to switch to.
  | switchTo (id : ExecutorId)
  -- The executor `current` has been switched in.
  | executing (id current : ExecutorId)
  | clearCurrent (id : ExecutorId)
  | testFinished (id : ExecutorId)
  | unregister (id : ExecutorId)
  | enqueue (id : ExecutorId)
  | testPending (id : ExecutorId)
  deriving DecidableEq, Repr

inductive VisitMode where
  | table
  | queue
  deriving DecidableEq, Repr

inductive RuntimePc where
  | start
  | tableStart
  | tableNext
  | testTable
  | popFront
  | setCurrent (mode : VisitMode) (id : InspectorId)
  | visit (mode : VisitMode) (id : InspectorId) (pc : InspectorPc)
  | clearCurrent (mode : VisitMode) (id : InspectorId)
  | testEmpty (id : InspectorId)
  | unregister (id : InspectorId)
  | pushBack (id : InspectorId)
  -- The run loop of the mode has ended.
  | leave (mode : VisitMode)
  -- The call of `halt_if_all_finished_or_ipi`.
  | halt
  -- Inside the locked section, `target` is the CPU that gets an interrupt.
  | sendIpi (target : Option Nat)
  | setEndpoint (target : Option Nat)
  | enableInt
  | wfi
  | asleep
  | disableInt
  deriving DecidableEq, Repr

structure Cpu where
  rt : Runtime
  pc : RuntimePc
  -- The software interrupt is pending.
  softPending : Bool

inductive CpuAction where
  -- The next step of the loop.
  | run
  -- The next step of the loop where it reads the clock.
  | startTable (now : Duration)
  -- A step of the executor that is switched in.
  | execute (action : ExecutorAction)
  -- `Runtime::switch_yield` in the executor that is switched in.
  | yield
  | op (op : RuntimeOp)
  -- The check in `halt_if_all_finished_or_ipi` does not halt, `target` is the first CPU at its
  -- endpoint.
  | stayAwake (target : Option Nat)
  -- Another CPU sends a software interrupt.
  | receiveIpi
  -- The trap of the software interrupt, `soft_int::handle`.
  | softInt
  -- `wfi` ends for any other reason.
  | wakeUp

namespace Cpu

def boot : Cpu where
  rt := .new
  pc := .start
  softPending := false

def inspectorRun (c : Cpu) (mode : VisitMode) (inspectorId : InspectorId) (pc : InspectorPc)
    : Outcome Cpu :=
  match pc with
  | .dequeue =>
    .unwrap (c.rt.withCurrentInspector (·.dequeue)) fun (executorId, rt) =>
      match executorId with
      | some id => .next { c with rt, pc := .visit mode inspectorId (.setCurrent id) }
      | none => .next { c with rt, pc := .clearCurrent mode inspectorId }
  | .setCurrent id =>
    .unwrap (c.rt.withCurrentInspector fun is => ((), is.setCurrent (some id))) fun (_, rt) =>
      .next { c with rt, pc := .visit mode inspectorId (.switchTo id) }
  | .switchTo id =>
    .unwrap (c.rt.withCurrentExecutor fun ex => (ex.id, ex)) fun (current, rt) =>
      .unwrap current fun current =>
        .next { c with rt, pc := .visit mode inspectorId (.executing id current) }
  | .executing _ _ => .disabled
  | .clearCurrent id =>
    .unwrap (c.rt.withCurrentInspector fun is => ((), is.setCurrent none)) fun (_, rt) =>
      .next { c with rt, pc := .visit mode inspectorId (.testFinished id) }
  | .testFinished id =>
    .unwrap (c.rt.withCurrentInspector
        (·.withExecutor id fun ex => (decide (ex.status = .finished), ex))) fun (finished, rt) =>
      .unwrap finished fun finished =>
        if finished then
          .next { c with rt, pc := .visit mode inspectorId (.unregister id) }
        else
          .next { c with rt, pc := .visit mode inspectorId (.enqueue id) }
  | .unregister id =>
    .unwrap (c.rt.withCurrentInspector fun is =>
        (is.unregister id, (is.unregister id).toOption.getD is)) fun (result, rt) =>
      .unwrap result fun _ =>
        .next { c with rt, pc := .visit mode inspectorId (.testPending id) }
  | .enqueue id =>
    .unwrap (c.rt.withCurrentInspector fun is =>
        (is.enqueue id, (is.enqueue id).toOption.getD is)) fun (result, rt) =>
      .unwrap result fun _ =>
        .next { c with rt, pc := .visit mode inspectorId (.testPending id) }
  | .testPending _ =>
    .unwrap (c.rt.withCurrentInspector fun is => (is.status, is)) fun (status, rt) =>
      match status with
      | .pending _ => .next { c with rt, pc := .clearCurrent mode inspectorId }
      | _ => .next { c with rt, pc := .visit mode inspectorId .dequeue }

def runStep (c : Cpu) : Outcome Cpu :=
  match c.pc with
  | .start => .next { c with pc := if c.rt.schedTable.isSome then .tableStart else .testTable }
  | .tableStart => .disabled
  | .tableNext =>
    match c.rt.schedTableNext with
    | .next (some entry, rt) => .next { c with rt, pc := .setCurrent .table entry.inspectorId }
    | .next (none, rt) => .next { c with rt, pc := .leave .table }
    | .panic => .panic
    | .disabled => .disabled
  | .testTable => .next { c with pc := if c.rt.schedTable.isNone then .popFront else .leave .queue }
  | .popFront =>
    match c.rt.popFront with
    | (some id, rt) => .next { c with rt, pc := .setCurrent .queue id }
    | (none, rt) => .next { c with rt, pc := .leave .queue }
  | .setCurrent mode id =>
    .next { c with rt := c.rt.setCurrentInspector (some id), pc := .visit mode id .dequeue }
  | .visit mode id pc => c.inspectorRun mode id pc
  | .clearCurrent mode id =>
    let rt := c.rt.setCurrentInspector none
    match mode with
    | .table => .next { c with rt, pc := .tableNext }
    | .queue => .next { c with rt, pc := .testEmpty id }
  | .testEmpty id =>
    .unwrap (c.rt.withInspector id fun is => (is.isEmpty && decide (is.status = .idle), is))
      fun (finished, rt) =>
        .next { c with rt, pc := if finished then .unregister id else .pushBack id }
  | .unregister id =>
    .unwrap (c.rt.unregister id) fun rt => .next { c with rt, pc := .testTable }
  | .pushBack id =>
    .unwrap (c.rt.pushBack id) fun rt => .next { c with rt, pc := .testTable }
  | .leave .table => .next { c with pc := if c.rt.schedTable.isNone then .start else .halt }
  | .leave .queue => .next { c with pc := if c.rt.schedTable.isSome then .start else .halt }
  | .halt => .disabled
  | .sendIpi target => .next { c with pc := .setEndpoint target }
  | .setEndpoint _ => .next { c with rt := { c.rt with status := .endpoint }, pc := .enableInt }
  | .enableInt => .next { c with pc := .wfi }
  | .wfi => .next { c with pc := .asleep }
  | .asleep => .disabled
  | .disableInt => .next { c with pc := .start }

def execute (c : Cpu) (action : ExecutorAction) : Outcome Cpu :=
  -- A step of the executor that is switched in. Should it be gone from the registry, its memory has
  -- been freed while it runs.
  match c.pc with
  | .visit _ inspectorId (.executing _ current) =>
    match c.rt.registry[inspectorId]? with
    | none => .panic
    | some is =>
      match is.registry[current]? with
      | none => .panic
      | some ex =>
        (ex.step action).map fun ex =>
          let is := { is with registry := is.registry.insert current ex }
          { c with rt := { c.rt with registry := c.rt.registry.insert inspectorId is } }
  | _ => .disabled

def yield (c : Cpu) : Outcome Cpu :=
  -- `Runtime::switch_yield`, the executor looks itself up and switches to the loop of the
  -- inspector.
  match c.pc with
  | .visit mode inspectorId (.executing id _) =>
    .unwrap (c.rt.withCurrentExecutor fun ex => ((), ex)) fun (current, rt) =>
      .unwrap current fun _ =>
        .next { c with rt, pc := .visit mode inspectorId (.clearCurrent id) }
  | _ => .disabled

def softInt (c : Cpu) : Outcome Cpu :=
  -- The software interrupt is taken where interrupts are enabled: inside a visit and around `wfi`.
  -- Only if it ends the `wfi` itself, the handler returns behind it.
  if c.softPending then
    match c.pc with
    | .visit _ _ _ | .wfi | .disableInt => .next { c with softPending := false }
    | .asleep => .next { c with softPending := false, pc := .disableInt }
    | _ => .disabled
  else
    .disabled

def step (c : Cpu) (action : CpuAction) : Outcome Cpu :=
  match action with
  | .run => c.runStep
  | .startTable now =>
    match c.pc with
    | .tableStart =>
      .unwrap (c.rt.schedTableStart now) fun rt => .next { c with rt, pc := .tableNext }
    | _ => .disabled
  | .execute action => c.execute action
  | .yield => c.yield
  | .op op => .next { c with rt := c.rt.applyOp op }
  | .stayAwake target =>
    match c.pc with
    | .halt => .next { c with pc := .sendIpi target }
    | _ => .disabled
  | .receiveIpi => .next { c with softPending := true }
  | .softInt => c.softInt
  | .wakeUp =>
    match c.pc with
    | .asleep => .next { c with pc := .disableInt }
    | _ => .disabled

end Cpu

end Jrinx
