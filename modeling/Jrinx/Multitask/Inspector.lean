import Jrinx.Multitask.Executor

/-!
This module contains the inspector of `multitask/src/inspector.rs`: a registry of executors and a
queue of the executors that can be dispatched.
-/

namespace Jrinx

open Std

inductive InspectorStatus where
  | idle
  | running (id : ExecutorId)
  | pending (id : ExecutorId)
  deriving DecidableEq, Repr

structure Inspector where
  id : InspectorId
  status : InspectorStatus
  registry : ExtTreeMap ExecutorId Executor
  queue : FastPriorityQueue ExecutorPriority ExecutorId

namespace Inspector

def isEmpty (is : Inspector) : Bool := is.registry.isEmpty

def markPending (is : Inspector) : Except InternalError Inspector :=
  match is.status with
  | .idle => .error .invalidInspectorStatus
  | .running executorId => .ok { is with status := .pending executorId }
  | .pending _ => .ok is

def register (is : Inspector) (executor : Executor) : Except InternalError Inspector :=
  if executor.id ∈ is.registry then
    .error .duplicateExecutorId
  else
    .ok
      {
        is with
        registry := is.registry.insert executor.id executor
        queue := is.queue.enqueue executor.priority executor.id
      }

def unregister (is : Inspector) (executorId : ExecutorId) : Except InternalError Inspector :=
  if executorId ∈ is.registry then
    .ok { is with registry := is.registry.erase executorId }
  else
    .error .invalidExecutorId

def empty (id : InspectorId) : Inspector where
  id := id
  status := .idle
  registry := ∅
  queue := .new

def tryRegister (is : Inspector) (executor : Executor) : Inspector :=
  -- Register an executor and ignore the error of a duplicate.
  match is.register executor with
  | .ok is => is
  | .error _ => is

def new (id : InspectorId) (rootExecutor : Executor) (others : List Executor) : Inspector :=
  others.foldl tryRegister ((empty id).tryRegister rootExecutor)

def withExecutor {β : Type} (is : Inspector) (id : ExecutorId) (f : Executor → β × Executor)
    : Except InternalError β × Inspector :=
  match is.registry[id]? with
  | some ex => (.ok (f ex).1, { is with registry := is.registry.insert id (f ex).2 })
  | none => (.error .invalidExecutorId, is)

def dequeue (is : Inspector) : Option ExecutorId × Inspector :=
  match is.queue.dequeue with
  | (result, queue) => (result.map Prod.snd, { is with queue })

def enqueue (is : Inspector) (id : ExecutorId) : Except InternalError Inspector :=
  match is.registry[id]? with
  | some executor => .ok { is with queue := is.queue.enqueue executor.priority id }
  | none => .error .invalidExecutorId

def setCurrent (is : Inspector) (id : Option ExecutorId) : Inspector :=
  match id with
  | some id => { is with status := .running id }
  | none =>
    match is.status with
    | .running _ => { is with status := .idle }
    | _ => is

def current (is : Inspector) : Except InternalError ExecutorId :=
  match is.status with
  | .running executorId | .pending executorId => .ok executorId
  | .idle => .error .invalidInspectorStatus

@[simp]
theorem setCurrent_registry (is : Inspector) (id : Option ExecutorId)
    : (is.setCurrent id).registry = is.registry := by
  unfold setCurrent
  split
  . rfl
  . split <;> rfl

@[simp]
theorem setCurrent_queue (is : Inspector) (id : Option ExecutorId)
    : (is.setCurrent id).queue = is.queue := by
  unfold setCurrent
  split
  . rfl
  . split <;> rfl

@[simp]
theorem setCurrent_none_status_eq_pending {is : Inspector} {x : ExecutorId}
    : (is.setCurrent none).status = .pending x ↔ is.status = .pending x := by
  cases hstatus : is.status <;> simp [setCurrent, hstatus]

end Inspector

end Jrinx
