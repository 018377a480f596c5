import Jrinx.Multitask.Inspector
import Jrinx.Multitask.SchedTable

/-!
This module contains the runtime of `multitask/src/runtime.rs`: a registry of inspectors, the run
queue of the round robin, and a schedule table that takes the place of the run queue while it is
enacted.
-/

namespace Jrinx

open Std

inductive RuntimeStatus where
  | unused
  | init
  | idle
  | running (id : InspectorId)
  | endpoint
  deriving DecidableEq, Repr

structure Runtime where
  registry : ExtTreeMap InspectorId Inspector
  queue : List InspectorId
  schedTable : Option RuntimeSchedTable
  status : RuntimeStatus

namespace Runtime

def new : Runtime where
  registry := ∅
  queue := []
  schedTable := none
  status := .unused

def enactSchedTable (rt : Runtime) (schedTable : RuntimeSchedTable)
    : Except InternalError Runtime :=
  if rt.schedTable.isSome then
    .error .duplicateRuntimeSchedTable
  else
    .ok
      {
        rt with
        queue := rt.queue.filter (fun id => schedTable.table.all (·.inspectorId ≠ id))
        schedTable := some schedTable
      }

def revokeSchedTable (rt : Runtime) : Except InternalError (RuntimeSchedTable × Runtime) :=
  match rt.schedTable with
  | some schedTable => .ok (schedTable, { rt with schedTable := none })
  | none => .error .invalidRuntimeSchedTable

def register (rt : Runtime) (inspector : Inspector) : Except InternalError Runtime :=
  if inspector.id ∈ rt.registry then
    .error .duplicateInspectorId
  else
    .ok
      {
        rt with
        registry := rt.registry.insert inspector.id inspector
        queue := rt.queue ++ [inspector.id]
      }

def unregister (rt : Runtime) (id : InspectorId) : Except InternalError Runtime :=
  if id ∈ rt.registry then
    .ok { rt with registry := rt.registry.erase id }
  else
    .error .invalidInspectorId

def withInspector {β : Type} (rt : Runtime) (id : InspectorId) (f : Inspector → β × Inspector)
    : Except InternalError (β × Runtime) :=
  -- Access an inspector of the registry. Its fields are behind locks of their own, so `f` may
  -- change it.
  match rt.registry[id]? with
  | some is => .ok ((f is).1, { rt with registry := rt.registry.insert id (f is).2 })
  | none => .error .invalidInspectorId

def withCurrentInspector {β : Type} (rt : Runtime) (f : Inspector → β × Inspector)
    : Except InternalError (β × Runtime) :=
  match rt.status with
  | .running inspectorId => rt.withInspector inspectorId f
  | _ => .error .invalidRuntimeStatus

def withCurrentExecutor {β : Type} (rt : Runtime) (f : Executor → β × Executor)
    : Except InternalError (Except InternalError β × Runtime) :=
  rt.withCurrentInspector fun is =>
    match is.current with
    | .ok executorId => is.withExecutor executorId f
    | .error e => (.error e, is)

def setCurrentInspector (rt : Runtime) (id : Option InspectorId) : Runtime :=
  match id with
  | some id => { rt with status := .running id }
  | none => { rt with status := .idle }

def popFront (rt : Runtime) : Option InspectorId × Runtime :=
  match rt.queue with
  | [] => (none, rt)
  | id :: queue => (some id, { rt with queue })

def pushBack (rt : Runtime) (id : InspectorId) : Except InternalError Runtime :=
  if id ∈ rt.registry then
    .ok { rt with queue := rt.queue ++ [id] }
  else
    .error .invalidInspectorId

def schedTableStart (rt : Runtime) (now : Duration) : Except InternalError Runtime :=
  match rt.schedTable with
  | some table => .ok { rt with schedTable := some (table.start now) }
  | none => .error .invalidRuntimeSchedTable

def schedTableNext (rt : Runtime) : Outcome (Option RuntimeSchedTableEntry × Runtime) :=
  match rt.schedTable with
  | some table =>
    table.schedNext.map fun (entry, table) => (some entry, { rt with schedTable := some table })
  | none => .next (none, rt)

end Runtime

inductive RuntimeOp where
  | register (id : InspectorId) (rootExecutor : Executor) (others : List Executor)
  | unregister (id : InspectorId)
  | enactSchedTable (schedTable : RuntimeSchedTable)
  | revokeSchedTable
  | registerExecutor (id : InspectorId) (executor : Executor)
  | unregisterExecutor (id : InspectorId) (executorId : ExecutorId)
  | markPending (id : InspectorId)
  | wake (id : InspectorId) (executorId : ExecutorId) (waker : TaskWaker)

namespace Runtime

def tryInspector (rt : Runtime) (id : InspectorId) (f : Inspector → Except InternalError Inspector)
    : Runtime :=
  match rt.withInspector id (fun is => ((), (f is).toOption.getD is)) with
  | .ok (_, rt) => rt
  | .error _ => rt

def applyOp (rt : Runtime) (op : RuntimeOp) : Runtime :=
  -- The effect of a public operation, an error that is returned to the caller leaves the runtime as
  -- it is.
  match op with
  | .register id rootExecutor others =>
    (rt.register (.new id rootExecutor others)).toOption.getD rt
  | .unregister id => (rt.unregister id).toOption.getD rt
  | .enactSchedTable schedTable => (rt.enactSchedTable schedTable).toOption.getD rt
  | .revokeSchedTable => (rt.revokeSchedTable.toOption.map Prod.snd).getD rt
  | .registerExecutor id executor => rt.tryInspector id (·.register executor)
  | .unregisterExecutor id executorId => rt.tryInspector id (·.unregister executorId)
  | .markPending id => rt.tryInspector id (·.markPending)
  | .wake id executorId waker =>
    rt.tryInspector id fun is => .ok (is.withExecutor executorId (fun ex => ((), ex.wakeTask waker))).2

end Runtime

end Jrinx
