import Mathlib.Tactic
import Jrinx.Error
import Jrinx.Util.Outcome
import Jrinx.Util.SerialId
import Jrinx.Util.FastPq

/-!
This module contains the executor of `multitask/src/executor.rs`: a registry of tasks and a queue of
the tasks that are ready, which `Executor::run` polls one after the other.

An executor can be switched out and in again between any two of its steps, so the place at which it
resumes is a part of its state. A future is arbitrary code, hence what a poll does is a choice of
the action: it may wake, spawn, and in the end it returns `Ready` or `Pending`.
-/

namespace Jrinx

open Std

structure TaskPriority where
  pri : FastPriority
  deriving DecidableEq, Repr

instance : IntoFastPriority TaskPriority where
  into := TaskPriority.pri

instance : Inhabited TaskPriority := ⟨⟨0⟩⟩

structure Task where
  id : TaskId
  priority : TaskPriority
  deriving DecidableEq, Repr

structure TaskWaker where
  taskId : TaskId
  taskPriority : TaskPriority
  deriving DecidableEq, Repr

def TaskWaker.create (taskId : TaskId) (taskPriority : TaskPriority) : TaskWaker where
  taskId := taskId
  taskPriority := taskPriority

structure ExecutorPriority where
  pri : FastPriority
  deriving DecidableEq, Repr

instance : IntoFastPriority ExecutorPriority where
  into := ExecutorPriority.pri

instance : Inhabited ExecutorPriority := ⟨⟨0⟩⟩

inductive ExecutorStatus where
  | runnable
  | finished
  deriving DecidableEq, Repr

inductive ExecutorPc where
  -- `executor_launch`, the executor was never switched in.
  | launch
  -- The head of the `while` loop.
  | dequeue
  -- Inside `task.poll`.
  | poll (id : TaskId)
  -- The loop is left, the status is not set yet.
  | drained
  -- The final `Runtime::switch_yield`.
  | finished
  deriving DecidableEq, Repr

structure Executor where
  id : ExecutorId
  priority : ExecutorPriority
  status : ExecutorStatus
  pc : ExecutorPc
  taskRegistry : ExtTreeMap TaskId Task
  taskQueue : FastPriorityQueue TaskPriority TaskId
  taskWaker : ExtTreeMap TaskId TaskWaker
  currentTaskPriority : TaskPriority

namespace Executor

def spawn (ex : Executor) (task : Task) : Except InternalError Unit × Executor :=
  -- The queue gets the task before the registry is asked, also if the registry then rejects it.
  let taskQueue := ex.taskQueue.enqueue task.priority task.id
  if task.id ∈ ex.taskRegistry then
    (.error .duplicateTaskId, { ex with taskQueue })
  else
    (.ok (), { ex with taskQueue, taskRegistry := ex.taskRegistry.insert task.id task })

def new (id : ExecutorId) (priority : ExecutorPriority) (rootTask : Task) : Executor :=
  let ex : Executor :=
    {
      id
      priority
      status := .runnable
      pc := .launch
      taskRegistry := ∅
      taskQueue := .new
      taskWaker := ∅
      currentTaskPriority := default
    }
  (ex.spawn rootTask).2

def wakeTask (ex : Executor) (waker : TaskWaker) : Executor :=
  { ex with taskQueue := ex.taskQueue.enqueue waker.taskPriority waker.taskId }

def runDequeue (ex : Executor) : Executor :=
  match ex.taskQueue.dequeue with
  | (none, taskQueue) => { ex with taskQueue, pc := .drained }
  | (some (_, taskId), taskQueue) =>
    match ex.taskRegistry[taskId]? with
    | none => { ex with taskQueue }
    | some task =>
      {
        ex with
        taskQueue
        taskWaker := ex.taskWaker.insertIfNew taskId (.create task.id task.priority)
        currentTaskPriority := task.priority
        pc := .poll taskId
      }

end Executor

inductive ExecutorAction where
  | launch
  | dequeue
  | spawn (task : Task)
  | wake (waker : TaskWaker)
  | ready
  | pending
  | finish
  deriving DecidableEq, Repr

namespace Executor

def step (ex : Executor) (action : ExecutorAction) : Outcome Executor :=
  match action with
  | .launch =>
    match ex.pc with
    | .launch => .next { ex with pc := .dequeue }
    | _ => .disabled
  | .dequeue =>
    match ex.pc with
    | .dequeue => .next ex.runDequeue
    | _ => .disabled
  | .spawn task =>
    match ex.pc with
    | .launch | .poll _ =>
      match ex.spawn task with
      | (.ok (), ex) => .next ex
      | (.error _, _) => .panic
    | _ => .disabled
  | .wake waker => .next (ex.wakeTask waker)
  | .ready =>
    match ex.pc with
    | .poll taskId =>
      .next
        {
          ex with
          taskRegistry := ex.taskRegistry.erase taskId
          taskWaker := ex.taskWaker.erase taskId
          pc := .dequeue
        }
    | _ => .disabled
  | .pending =>
    match ex.pc with
    | .poll _ => .next { ex with pc := .dequeue }
    | _ => .disabled
  | .finish =>
    match ex.pc with
    | .drained => .next { ex with status := .finished, pc := .finished }
    | _ => .disabled

theorem spawn_id (ex : Executor) (task : Task) : (ex.spawn task).2.id = ex.id := by
  unfold spawn
  dsimp only
  split <;> rfl

theorem spawn_priority (ex : Executor) (task : Task)
    : (ex.spawn task).2.priority = ex.priority := by
  unfold spawn
  dsimp only
  split <;> rfl

theorem runDequeue_id (ex : Executor) : ex.runDequeue.id = ex.id := by
  unfold runDequeue
  split
  . rfl
  . split <;> rfl

theorem runDequeue_priority (ex : Executor) : ex.runDequeue.priority = ex.priority := by
  unfold runDequeue
  split
  . rfl
  . split <;> rfl

theorem runDequeue_cases {ex : Executor} {l : List (TaskPriority × TaskId)}
    (h : ex.taskQueue.Refines l)
    : (l = [] ∧ ex.runDequeue = { ex with pc := .drained })
        ∨
      ∃ e l' taskQueue,
        StableQueue.dequeue FastPriorityQueue.key l = some (e, l') ∧ taskQueue.Refines l' ∧
        ((ex.taskRegistry[e.2]? = none ∧ ex.runDequeue = { ex with taskQueue })
          ∨
        ∃ task, ex.taskRegistry[e.2]? = some task ∧
          ex.runDequeue =
            {
              ex with
              taskQueue
              taskWaker := ex.taskWaker.insertIfNew e.2 (.create task.id task.priority)
              currentTaskPriority := task.priority
              pc := .poll e.2
            }) := by
  rcases h.dequeue with ⟨hnil, hdequeue⟩ | ⟨e, l', hl, hsome, hrefines⟩
  . left
    simp only [runDequeue, hdequeue, hnil, and_self]
  . right
    refine ⟨e, l', ex.taskQueue.dequeue.2, hl, hrefines, ?_⟩
    have hpair : ex.taskQueue.dequeue = (some (e.1, e.2), ex.taskQueue.dequeue.2) := by
      rw [← hsome]
    cases hget : ex.taskRegistry[e.2]? with
    | none =>
      left
      simp only [true_and]
      rw [runDequeue, hpair]
      simp only [hget]
    | some task =>
      right
      refine ⟨task, rfl, ?_⟩
      rw [runDequeue, hpair]
      simp only [hget]

theorem step_spawn {ex ex' : Executor} {task : Task} (h : ex.step (.spawn task) = .next ex')
    : task.id ∉ ex.taskRegistry
        ∧
      ex.pc ≠ .drained ∧ ex.pc ≠ .finished
        ∧
      ex' =
        {
          ex with
          taskQueue := ex.taskQueue.enqueue task.priority task.id
          taskRegistry := ex.taskRegistry.insert task.id task
        } := by
  by_cases hmem : task.id ∈ ex.taskRegistry
  . simp only [step, spawn, hmem, if_true] at h
    split at h <;> simp at h
  . simp only [step, spawn, hmem, if_false] at h
    split at h <;> simp_all

theorem step_id_priority {ex ex' : Executor} {action : ExecutorAction}
    (h : ex.step action = .next ex')
    : ex'.id = ex.id ∧ ex'.priority = ex.priority := by
  cases action with
  | spawn task =>
    have hid := ex.spawn_id task
    have hpriority := ex.spawn_priority task
    simp only [step] at h
    split at h
    . split at h <;> simp_all
    . split at h <;> simp_all
    . simp at h
  | dequeue =>
    simp only [step] at h
    split at h
    . simp only [Outcome.next.injEq] at h
      subst h
      exact ⟨ex.runDequeue_id, ex.runDequeue_priority⟩
    . simp at h
  | wake waker =>
    simp only [step, Outcome.next.injEq] at h
    subst h
    exact ⟨rfl, rfl⟩
  | launch | ready | pending | finish =>
    simp only [step] at h
    split at h
    . simp only [Outcome.next.injEq] at h
      subst h
      exact ⟨rfl, rfl⟩
    . simp at h

end Executor

end Jrinx
