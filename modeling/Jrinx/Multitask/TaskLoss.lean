import Jrinx.Multitask.Executor

/-!
This module contains the whole life of one executor: next to the executor there is a record of what
its tasks have done, and the inspector drops the executor once its status is `Finished`. The main
result tells exactly when no task is lost that way.
-/

namespace Jrinx

open Std

structure ExecutorHistory where
  executor : Executor
  -- The wakers that were passed to a poll, anyone may have kept a clone of these.
  handedOut : List TaskWaker
  -- The tasks whose waker was not called since their last poll began.
  parked : List TaskId
  spawned : List TaskId
  -- The tasks that returned `Ready`.
  completed : List TaskId
  -- `Inspector::run` has unregistered the executor.
  dropped : Bool

inductive ExecutorEvent where
  | act (action : ExecutorAction)
  | drop
  deriving DecidableEq, Repr

namespace ExecutorHistory

def init (id : ExecutorId) (priority : ExecutorPriority) (rootTask : Task) : ExecutorHistory where
  executor := .new id priority rootTask
  handedOut := []
  parked := []
  spawned := [rootTask.id]
  completed := []
  dropped := false

def record (h : ExecutorHistory) (action : ExecutorAction) (ex : Executor) : ExecutorHistory :=
  match action with
  | .spawn task => { h with executor := ex, spawned := task.id :: h.spawned }
  | .wake waker => { h with executor := ex, parked := h.parked.filter (· ≠ waker.taskId) }
  | .dequeue =>
    match ex.pc with
    | .poll taskId =>
      {
        h with
        executor := ex
        handedOut := ex.taskWaker[taskId]?.toList ++ h.handedOut
        parked := taskId :: h.parked
      }
    | _ => { h with executor := ex }
  | .ready =>
    match h.executor.pc with
    | .poll taskId =>
      {
        h with
        executor := ex
        parked := h.parked.filter (· ≠ taskId)
        completed := taskId :: h.completed
      }
    | _ => { h with executor := ex }
  | .launch | .pending | .finish => { h with executor := ex }

def enabled (h : ExecutorHistory) (action : ExecutorAction) : Bool :=
  -- The steps that are left: a waker has to be handed out before it can be called, and after the
  -- drop there is nothing but the queue that the wakers share.
  match action with
  | .wake waker => waker ∈ h.handedOut
  | _ => !h.dropped

def step (h : ExecutorHistory) (event : ExecutorEvent) : Outcome ExecutorHistory :=
  match event with
  | .act action =>
    if h.enabled action then
      (h.executor.step action).map (h.record action)
    else
      .disabled
  | .drop =>
    if h.executor.status = .finished ∧ !h.dropped then
      .next { h with dropped := true }
    else
      .disabled

/--
The loop of `Executor::run` looks at an empty ready queue only while no task is parked.
-/
def NoneParked (h : ExecutorHistory) (event : ExecutorEvent) : Prop :=
  event = .act .dequeue → h.executor.taskQueue.bits = 0#64 → h.parked = []

/--
No task is lost: a finished executor has no task left, every task that was ever spawned on it has
returned `Ready`, only such an executor is dropped, and no waker that is still around belongs to a
task that is not done.
-/
structure NoTaskLost (h : ExecutorHistory) : Prop where
  registry : h.executor.status = .finished → h.executor.taskRegistry.isEmpty = true
  spawned : h.executor.status = .finished → ∀ id ∈ h.spawned, id ∈ h.completed
  dropped : h.dropped = true → h.executor.status = .finished
  wakers : h.executor.status = .finished → ∀ waker ∈ h.handedOut, waker.taskId ∈ h.completed

structure Inv (h : ExecutorHistory) : Prop where
  queue : ∃ l, h.executor.taskQueue.Refines l
    ∧ ∀ id ∈ h.executor.taskRegistry, id ∈ l.map Prod.snd ∨ id ∈ h.parked
  parked : ∀ id ∈ h.parked, id ∈ h.executor.taskRegistry
  spawned : ∀ id ∈ h.spawned, id ∈ h.executor.taskRegistry ∨ id ∈ h.completed
  registry : ∀ (id : TaskId) (task : Task),
    h.executor.taskRegistry[id]? = some task → task.id = id ∧ id ∈ h.spawned
  waker : ∀ (id : TaskId) (waker : TaskWaker),
    h.executor.taskWaker[id]? = some waker → waker.taskId ∈ h.spawned
  handedOut : ∀ waker ∈ h.handedOut, waker.taskId ∈ h.spawned
  status : h.executor.status = .finished ↔ h.executor.pc = .finished
  dropped : h.dropped = true → h.executor.status = .finished

theorem inv_init (id : ExecutorId) (priority : ExecutorPriority) (rootTask : Task)
    : (init id priority rootTask).Inv := by
  have hqueue := (FastPriorityQueue.refines_new (P := TaskPriority) (I := TaskId)).enqueue
    rootTask.priority rootTask.id
  constructor
  . exact ⟨_, hqueue, by simp [init, Executor.new, Executor.spawn]⟩
  . simp [init]
  . simp [init, Executor.new, Executor.spawn]
  . intro i task
    simp only [init, Executor.new, Executor.spawn, ExtTreeMap.not_mem_empty, if_false,
      ExtTreeMap.getElem?_insert]
    grind
  . simp [init, Executor.new, Executor.spawn]
  . simp [init]
  . simp [init, Executor.new, Executor.spawn]
  . simp [init]

theorem step_act_cases {h h' : ExecutorHistory} {action : ExecutorAction}
    (hstep : h.step (.act action) = .next h')
    : h.enabled action = true ∧ ∃ ex, h.executor.step action = .next ex ∧ h' = h.record action ex := by
  simp only [step] at hstep
  split at hstep
  . next henabled =>
    obtain ⟨ex, hex, hrecord⟩ := Outcome.map_eq_next hstep
    exact ⟨henabled, ex, hex, hrecord.symm⟩
  . simp at hstep

theorem step_drop_cases {h h' : ExecutorHistory} (hstep : h.step .drop = .next h')
    : h.executor.status = .finished ∧ h' = { h with dropped := true } := by
  simp only [step] at hstep
  split at hstep
  . next hfinished =>
    simp only [Outcome.next.injEq] at hstep
    exact ⟨hfinished.1, hstep.symm⟩
  . simp at hstep

theorem Inv.spawn {h h' : ExecutorHistory} {task : Task} (hinv : h.Inv)
    (hstep : h.step (.act (.spawn task)) = .next h')
    : h'.Inv := by
  obtain ⟨_, ex, hex, rfl⟩ := step_act_cases hstep
  obtain ⟨l, hl, hmem⟩ := hinv.queue
  obtain ⟨hnew, _, _, rfl⟩ := Executor.step_spawn hex
  simp only [record]
  constructor
  . refine ⟨_, hl.enqueue task.priority task.id, ?_⟩
    intro id hid
    simp only [StableQueue.enqueue_eq, List.map_append, List.mem_append]
    grind
  . grind [hinv.parked]
  . grind [hinv.spawned]
  . intro id t
    simp only [ExtTreeMap.getElem?_insert]
    grind [hinv.registry]
  . grind [hinv.waker]
  . grind [hinv.handedOut]
  . exact hinv.status
  . exact hinv.dropped

theorem Inv.wake {h h' : ExecutorHistory} {waker : TaskWaker} (hinv : h.Inv)
    (hstep : h.step (.act (.wake waker)) = .next h')
    : h'.Inv := by
  obtain ⟨_, ex, hex, rfl⟩ := step_act_cases hstep
  obtain ⟨l, hl, hmem⟩ := hinv.queue
  simp only [Executor.step, Outcome.next.injEq] at hex
  subst hex
  simp only [record, Executor.wakeTask]
  constructor
  . refine ⟨_, hl.enqueue waker.taskPriority waker.taskId, ?_⟩
    intro id hid
    simp only [StableQueue.enqueue_eq, List.map_append, List.mem_append]
    grind
  . grind [hinv.parked]
  . exact hinv.spawned
  . exact hinv.registry
  . exact hinv.waker
  . exact hinv.handedOut
  . exact hinv.status
  . exact hinv.dropped

theorem Inv.dequeue {h h' : ExecutorHistory} (hinv : h.Inv)
    (hstep : h.step (.act .dequeue) = .next h')
    : h'.Inv := by
  obtain ⟨_, ex, hex, rfl⟩ := step_act_cases hstep
  obtain ⟨l, hl, hmem⟩ := hinv.queue
  have hpc : h.executor.pc = .dequeue ∧ ex = h.executor.runDequeue := by
    simp only [Executor.step] at hex
    grind
  obtain ⟨hpc, rfl⟩ := hpc
  have hstatus : h.executor.status ≠ .finished := by grind [hinv.status]
  rcases Executor.runDequeue_cases hl with ⟨hnil, hrun⟩ | ⟨e, l', q, hdequeue, hq, hrest⟩
  . rw [hrun]
    simp only [record]
    exact
      {
        queue := ⟨l, hl, hmem⟩, parked := hinv.parked, spawned := hinv.spawned
        registry := hinv.registry, waker := hinv.waker, handedOut := hinv.handedOut
        status := by simp [hstatus], dropped := hinv.dropped
      }
  . have hl' := StableQueue.mem_iff_of_dequeue_eq_some hdequeue
    have hsnd : ∀ id ∈ l.map Prod.snd, id = e.2 ∨ id ∈ l'.map Prod.snd := by
      intro id hid
      obtain ⟨y, hy, rfl⟩ := List.mem_map.mp hid
      rcases (hl' y).mp hy with rfl | hy
      . simp
      . exact .inr (List.mem_map_of_mem hy)
    rcases hrest with ⟨hgone, hrun⟩ | ⟨task, htask, hrun⟩
    . rw [hrun]
      simp only [record, hpc]
      exact
        {
          queue := ⟨l', hq, by grind⟩, parked := hinv.parked, spawned := hinv.spawned
          registry := hinv.registry, waker := hinv.waker, handedOut := hinv.handedOut
          status := by simp [hstatus], dropped := hinv.dropped
        }
    . have hreg := hinv.registry e.2 task htask
      have hwaker : ∀ (id : TaskId) (waker : TaskWaker),
          (h.executor.taskWaker.insertIfNew e.2 (.create task.id task.priority))[id]? = some waker →
          waker.taskId ∈ h.spawned := by
        intro id waker hget
        rw [ExtTreeMap.getElem?_insertIfNew] at hget
        split at hget
        . simp only [Option.some.injEq] at hget
          subst hget
          simpa [TaskWaker.create, hreg.1] using hreg.2
        . exact hinv.waker id waker hget
      rw [hrun]
      simp only [record]
      constructor
      . refine ⟨l', hq, ?_⟩
        intro id hid
        rcases hmem id hid with hid | hid
        . rcases hsnd id hid with rfl | hid
          . exact .inr (by simp)
          . exact .inl hid
        . exact .inr (by simp [hid])
      . grind [hinv.parked]
      . exact hinv.spawned
      . exact hinv.registry
      . exact hwaker
      . intro waker hmem
        rcases List.mem_append.mp hmem with hmem | hmem
        . exact hwaker e.2 waker (Option.mem_toList.mp hmem)
        . exact hinv.handedOut waker hmem
      . simp [hstatus]
      . exact hinv.dropped

theorem Inv.ready {h h' : ExecutorHistory} (hinv : h.Inv)
    (hstep : h.step (.act .ready) = .next h')
    : h'.Inv := by
  obtain ⟨_, ex, hex, rfl⟩ := step_act_cases hstep
  obtain ⟨l, hl, hmem⟩ := hinv.queue
  have hstatus := hinv.status
  simp only [Executor.step] at hex
  split at hex
  . next id hpc =>
    simp only [Outcome.next.injEq] at hex
    subst hex
    simp only [record, hpc]
    constructor
    . exact ⟨l, hl, by grind⟩
    . grind [hinv.parked]
    . grind [hinv.spawned]
    . intro i t
      rw [ExtTreeMap.getElem?_erase]
      grind [hinv.registry]
    . intro i w
      rw [ExtTreeMap.getElem?_erase]
      grind [hinv.waker]
    . exact hinv.handedOut
    . simpa [hpc] using hstatus
    . exact hinv.dropped
  . simp at hex

theorem Inv.step_pc {h h' : ExecutorHistory} {action : ExecutorAction} (hinv : h.Inv)
    (haction : action = .launch ∨ action = .pending ∨ action = .finish)
    (hstep : h.step (.act action) = .next h')
    : h'.Inv := by
  obtain ⟨_, ex, hex, rfl⟩ := step_act_cases hstep
  have hstatus := hinv.status
  rcases haction with rfl | rfl | rfl
  all_goals
    simp only [Executor.step] at hex
    split at hex
    . next hpc =>
      simp only [Outcome.next.injEq] at hex
      subst hex
      exact
        {
          queue := hinv.queue, parked := hinv.parked, spawned := hinv.spawned
          registry := hinv.registry, waker := hinv.waker, handedOut := hinv.handedOut
          status := by simp_all [record], dropped := by simp_all [record, hinv.dropped]
        }
    . simp at hex

theorem Inv.step {h h' : ExecutorHistory} {event : ExecutorEvent} (hinv : h.Inv)
    (hstep : h.step event = .next h')
    : h'.Inv := by
  cases event with
  | act action =>
    cases action with
    | spawn task => exact hinv.spawn hstep
    | wake waker => exact hinv.wake hstep
    | dequeue => exact hinv.dequeue hstep
    | ready => exact hinv.ready hstep
    | launch => exact hinv.step_pc (by simp) hstep
    | pending => exact hinv.step_pc (by simp) hstep
    | finish => exact hinv.step_pc (by simp) hstep
  | drop =>
    obtain ⟨hfinished, rfl⟩ := step_drop_cases hstep
    exact { hinv with dropped := fun _ => hfinished }

theorem Inv.mem_registry_iff {h : ExecutorHistory} (hinv : h.Inv)
    (hempty : h.executor.taskQueue.bits = 0#64) (id : TaskId)
    : id ∈ h.executor.taskRegistry ↔ id ∈ h.parked := by
  obtain ⟨l, hl, hmem⟩ := hinv.queue
  have hnil := hl.bits_eq_zero_iff.mp hempty
  subst hnil
  constructor
  . intro hid
    simpa using hmem id hid
  . exact hinv.parked id

def DrainedEmpty (h : ExecutorHistory) : Prop :=
  h.executor.pc = .drained ∨ h.executor.pc = .finished → h.executor.taskRegistry.isEmpty = true

theorem DrainedEmpty.dequeue {h h' : ExecutorHistory} (hinv : h.Inv)
    (hparked : h.executor.taskQueue.bits = 0#64 → h.parked = [])
    (hstep : h.step (.act .dequeue) = .next h')
    : h'.DrainedEmpty := by
  obtain ⟨_, ex, hex, rfl⟩ := step_act_cases hstep
  obtain ⟨l, hl, hmem⟩ := hinv.queue
  simp only [Executor.step] at hex
  split at hex
  . next hpc =>
    simp only [Outcome.next.injEq] at hex
    subst hex
    rcases Executor.runDequeue_cases hl with ⟨hnil, hrun⟩ | ⟨e, l', q, _, _, hrest⟩
    . intro _
      have hempty := hl.bits_eq_zero_iff.mpr hnil
      have hiff := hinv.mem_registry_iff hempty
      simp only [hparked hempty, List.not_mem_nil, iff_false] at hiff
      rw [hrun]
      simpa [record, ExtTreeMap.isEmpty_iff, ExtTreeMap.eq_empty_iff_forall_not_mem] using hiff
    . rcases hrest with ⟨_, hrun⟩ | ⟨_, _, hrun⟩
      . simp [DrainedEmpty, record, hrun, hpc]
      . simp [DrainedEmpty, record, hrun]
  . simp at hex

theorem DrainedEmpty.step {h h' : ExecutorHistory} {event : ExecutorEvent} (hinv : h.Inv)
    (hdrained : h.DrainedEmpty) (hallowed : h.NoneParked event) (hstep : h.step event = .next h')
    : h'.DrainedEmpty := by
  cases event with
  | act action =>
    cases action with
    | dequeue => exact DrainedEmpty.dequeue hinv (hallowed rfl) hstep
    | wake waker =>
      obtain ⟨_, ex, hex, rfl⟩ := step_act_cases hstep
      simp only [Executor.step, Outcome.next.injEq] at hex
      subst hex
      exact hdrained
    | spawn task =>
      obtain ⟨_, ex, hex, rfl⟩ := step_act_cases hstep
      obtain ⟨_, hdrained, hfinished, rfl⟩ := Executor.step_spawn hex
      simp [DrainedEmpty, record, hdrained, hfinished]
    | launch | ready | pending | finish =>
      obtain ⟨_, ex, hex, rfl⟩ := step_act_cases hstep
      simp only [Executor.step] at hex
      split at hex
      . next hpc =>
        simp only [Outcome.next.injEq] at hex
        subst hex
        simp_all [DrainedEmpty, record]
      . simp at hex
  | drop =>
    obtain ⟨_, rfl⟩ := step_drop_cases hstep
    exact hdrained

theorem inv_of_run {allowed : ExecutorHistory → ExecutorEvent → Prop} {h h' : ExecutorHistory}
    {events : List ExecutorEvent} (hrun : Run step allowed h events h') (hinv : h.Inv)
    : h'.Inv := by
  apply hrun.invariant Inv hinv
  intro s s' event hs _ hstep
  exact hs.step hstep

theorem Inv.noTaskLost {h : ExecutorHistory} (hinv : h.Inv) (hdrained : h.DrainedEmpty)
    : h.NoTaskLost := by
  have hempty : h.executor.status = .finished → ∀ id, id ∉ h.executor.taskRegistry := by
    intro hfinished
    have := hdrained (.inr (hinv.status.mp hfinished))
    simpa [ExtTreeMap.isEmpty_iff, ExtTreeMap.eq_empty_iff_forall_not_mem] using this
  have hspawned : h.executor.status = .finished → ∀ id ∈ h.spawned, id ∈ h.completed := by
    intro hfinished id hid
    rcases hinv.spawned id hid with hreg | hdone
    . exact absurd hreg (hempty hfinished id)
    . exact hdone
  constructor
  . intro hfinished
    exact hdrained (.inr (hinv.status.mp hfinished))
  . exact hspawned
  . exact hinv.dropped
  . intro hfinished waker hwaker
    exact hspawned hfinished _ (hinv.handedOut waker hwaker)

theorem Inv.task_lost {h : ExecutorHistory} (hinv : h.Inv) (hpc : h.executor.pc = .dequeue)
    (hempty : h.executor.taskQueue.bits = 0#64) (hparked : h.parked ≠ [])
    : ∃ h', exec ExecutorHistory.step h [.act .dequeue, .act .finish] = .next h' ∧ ¬ h'.NoTaskLost := by
  obtain ⟨l, hl, _⟩ := hinv.queue
  obtain ⟨id, hid⟩ := List.exists_mem_of_ne_nil _ hparked
  have hdropped : h.dropped = false := by
    by_contra hdropped
    have := hinv.status.mp (hinv.dropped (by simpa using hdropped))
    simp [hpc] at this
  rcases Executor.runDequeue_cases hl with ⟨_, hrun⟩ | ⟨e, l', q, hdequeue, _⟩
  . refine ⟨{ h with executor := { h.executor with pc := .finished, status := .finished } }, ?_, ?_⟩
    . simp [exec, ExecutorHistory.step, enabled, hdropped, Executor.step, hpc, hrun, record]
    . intro hlost
      have := hlost.registry rfl
      rw [ExtTreeMap.isEmpty_iff, ExtTreeMap.eq_empty_iff_forall_not_mem] at this
      exact this id (hinv.parked id hid)
  . have hnil := hl.bits_eq_zero_iff.mp hempty
    simp [hnil, StableQueue.dequeue] at hdequeue

/--
No task is lost in a run in which the loop never looks at an empty ready queue while a task is
parked, and as soon as it does so once, a task is lost.
-/
theorem noTaskLost_iff_noneParked (id : ExecutorId) (priority : ExecutorPriority) (rootTask : Task)
    : (∀ events h, Run step NoneParked (init id priority rootTask) events h → h.NoTaskLost)
        ∧
      (∀ events h, Run step (fun _ _ => True) (init id priority rootTask) events h →
        h.executor.pc = .dequeue → ¬ h.NoneParked (.act .dequeue) →
        ∃ h', exec step h [.act .dequeue, .act .finish] = .next h' ∧ ¬ h'.NoTaskLost) := by
  constructor
  . intro events h hrun
    have hboth : h.Inv ∧ h.DrainedEmpty := by
      apply hrun.invariant (fun h => h.Inv ∧ h.DrainedEmpty)
      . exact ⟨inv_init id priority rootTask, by simp [DrainedEmpty, init, Executor.new, Executor.spawn]⟩
      . intro s s' event hs hallowed hstep
        exact ⟨hs.1.step hstep, hs.2.step hs.1 hallowed hstep⟩
    exact hboth.1.noTaskLost hboth.2
  . intro events h hrun hpc hparked
    have hinv := inv_of_run hrun (inv_init id priority rootTask)
    simp only [NoneParked, true_implies, Classical.not_imp] at hparked
    exact hinv.task_lost hpc hparked.1 hparked.2

instance (h : ExecutorHistory) (event : ExecutorEvent) : Decidable (h.NoneParked event) :=
  inferInstanceAs (Decidable (_ → _))

def yieldingRoot : List ExecutorEvent :=
  -- The root task of an executor yields once, it calls its own waker before it returns `Pending`.
  [
    .act .launch, .act .dequeue, .act (.wake ⟨⟨1⟩, ⟨0⟩⟩), .act .pending, .act .dequeue, .act .ready,
    .act .dequeue, .act .finish, .drop
  ]

theorem noTaskLost_yieldingRoot
    : ∃ h, Run step NoneParked (init ⟨1⟩ ⟨0⟩ ⟨⟨1⟩, ⟨0⟩⟩) yieldingRoot h ∧ h.dropped = true
        ∧ h.NoTaskLost := by
  obtain ⟨h, hrun, hdropped⟩ := exists_run_of_exec (checked step NoneParked)
    (init ⟨1⟩ ⟨0⟩ ⟨⟨1⟩, ⟨0⟩⟩) yieldingRoot ExecutorHistory.dropped (by decide +kernel)
  have hrun := hrun.of_checked
  exact ⟨h, hrun, hdropped, (noTaskLost_iff_noneParked ⟨1⟩ ⟨0⟩ ⟨⟨1⟩, ⟨0⟩⟩).1 _ h hrun⟩

def pendingRoot : List ExecutorEvent :=
  -- The root task of an executor leaves its waker to someone else and returns `Pending`.
  [.act .launch, .act .dequeue, .act .pending, .act .dequeue, .act .finish, .drop]

theorem noTaskLost_pendingRoot_false
    : ¬ ∀ events h,
          Run step (fun _ _ => True) (init ⟨1⟩ ⟨0⟩ ⟨⟨1⟩, ⟨0⟩⟩) events h → h.NoTaskLost := by
  intro hall
  obtain ⟨h, hrun, hlost⟩ := exists_run_of_exec step (init ⟨1⟩ ⟨0⟩ ⟨⟨1⟩, ⟨0⟩⟩)
    (pendingRoot ++ [.act (.wake ⟨⟨1⟩, ⟨0⟩⟩)])
    (fun h => h.executor.status = .finished && !h.executor.taskRegistry.isEmpty) (by decide +kernel)
  have := (hall _ h hrun).registry
  simp_all

end ExecutorHistory

end Jrinx
