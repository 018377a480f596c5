import Jrinx.Multitask.TaskLoss

/-!
This module contains the order in which an executor polls its tasks. Next to the history of the executor
there is what is in its ready queue, in the order of arrival and with duplicates and stale wakes.
-/

namespace Jrinx

open Std

structure PollLog where
  history : ExecutorHistory
  ready : List (TaskPriority × TaskId)

namespace PollLog

def init (id : ExecutorId) (priority : ExecutorPriority) (rootTask : Task) : PollLog where
  history := .init id priority rootTask
  ready := [(rootTask.priority, rootTask.id)]

def readyAfter (s : PollLog) (event : ExecutorEvent) : List (TaskPriority × TaskId) :=
  match event with
  | .act (.spawn task) => s.ready ++ [(task.priority, task.id)]
  | .act (.wake waker) => s.ready ++ [(waker.taskPriority, waker.taskId)]
  | .act .dequeue =>
    match s.history.executor.taskQueue.dequeue.1 with
    | some e => s.ready.erase e
    | none => s.ready
  | _ => s.ready

def step (s : PollLog) (event : ExecutorEvent) : Outcome PollLog :=
  (s.history.step event).map fun history => { history, ready := s.readyAfter event }

-- `TaskId::new` never hands out an identifier twice.
def Fresh (s : PollLog) (event : ExecutorEvent) : Prop :=
  match event with
  | .act (.spawn task) => task.id ∉ s.history.spawned
  | _ => True

def polled (s : PollLog) (event : ExecutorEvent) : List TaskId :=
  match event with
  | .act .dequeue =>
    match s.history.executor.runDequeue.pc with
    | .poll taskId => [taskId]
    | _ => []
  | _ => []

-- Whether a poll returns `Ready` or `Pending` with the step.
def returned (_ : PollLog) (event : ExecutorEvent) : List Bool :=
  match event with
  | .act .ready => [true]
  | .act .pending => [false]
  | _ => []

def IsPriorityOf (registry : ExtTreeMap TaskId Task) (priority : TaskPriority) (taskId : TaskId) : Prop :=
  ∀ task, registry[taskId]? = some task → task.priority = priority

structure Inv (s : PollLog) : Prop where
  history : s.history.Inv
  queue : s.history.executor.taskQueue.Refines s.ready
  ready : ∀ e ∈ s.ready, e.2 ∈ s.history.spawned ∧ IsPriorityOf s.history.executor.taskRegistry e.1 e.2
  handedOut : ∀ waker ∈ s.history.handedOut,
    IsPriorityOf s.history.executor.taskRegistry waker.taskPriority waker.taskId
  waker : ∀ (id : TaskId) (waker : TaskWaker), s.history.executor.taskWaker[id]? = some waker →
    id ∈ s.history.executor.taskRegistry ∧
      IsPriorityOf s.history.executor.taskRegistry waker.taskPriority waker.taskId
  poll : ∀ id, s.history.executor.pc = .poll id → id ∈ s.history.executor.taskRegistry
  completed : ∀ id ∈ s.history.completed,
    id ∈ s.history.spawned ∧ id ∉ s.history.executor.taskRegistry

theorem IsPriorityOf.insert {registry : ExtTreeMap TaskId Task} {priority : TaskPriority} {taskId : TaskId}
    {task : Task} (h : IsPriorityOf registry priority taskId) (hne : task.id ≠ taskId)
    : IsPriorityOf (registry.insert task.id task) priority taskId := by
  intro t ht
  rw [ExtTreeMap.getElem?_insert] at ht
  grind [IsPriorityOf]

theorem IsPriorityOf.erase {registry : ExtTreeMap TaskId Task} {priority : TaskPriority}
    {taskId id : TaskId} (h : IsPriorityOf registry priority taskId)
    : IsPriorityOf (registry.erase id) priority taskId := by
  intro t ht
  rw [ExtTreeMap.getElem?_erase] at ht
  grind [IsPriorityOf]

theorem isPriorityOf_self {registry : ExtTreeMap TaskId Task} {task : Task}
    : IsPriorityOf (registry.insert task.id task) task.priority task.id := by
  intro t ht
  simp only [ExtTreeMap.getElem?_insert_self, Option.some.injEq] at ht
  rw [ht]

theorem step_cases {s s' : PollLog} {event : ExecutorEvent} (h : s.step event = .next s')
    : s.history.step event = .next s'.history ∧ s' = ⟨s'.history, s.readyAfter event⟩ := by
  obtain ⟨history, hstep, rfl⟩ := Outcome.map_eq_next h
  exact ⟨hstep, rfl⟩

theorem step_act_cases {s s' : PollLog} {action : ExecutorAction} (h : s.step (.act action) = .next s')
    : ∃ ex, s.history.enabled action = true ∧ s.history.executor.step action = .next ex ∧
        s' = ⟨s.history.record action ex, s.readyAfter (.act action)⟩ := by
  obtain ⟨hstep, hs'⟩ := step_cases h
  obtain ⟨henabled, ex, hex, hrecord⟩ := ExecutorHistory.step_act_cases hstep
  exact ⟨ex, henabled, hex, hrecord ▸ hs'⟩

theorem inv_init (id : ExecutorId) (priority : ExecutorPriority) (rootTask : Task)
    : (init id priority rootTask).Inv := by
  have hqueue := (FastPriorityQueue.refines_new (P := TaskPriority) (I := TaskId)).enqueue
    rootTask.priority rootTask.id
  constructor
  . exact ExecutorHistory.inv_init id priority rootTask
  . simpa [init, ExecutorHistory.init, Executor.new, Executor.spawn] using hqueue
  . simpa [init, ExecutorHistory.init, Executor.new, Executor.spawn] using isPriorityOf_self
  . simp [init, ExecutorHistory.init]
  . simp [init, ExecutorHistory.init, Executor.new, Executor.spawn]
  . simp [init, ExecutorHistory.init, Executor.new, Executor.spawn]
  . simp [init, ExecutorHistory.init]

theorem Inv.spawn {s s' : PollLog} {task : Task} (hinv : s.Inv) (hfresh : task.id ∉ s.history.spawned)
    (h : s.step (.act (.spawn task)) = .next s')
    : s'.Inv := by
  have hhistory := hinv.history.step (step_cases h).1
  obtain ⟨ex, _, hex, rfl⟩ := step_act_cases h
  obtain ⟨_, _, _, rfl⟩ := Executor.step_spawn hex
  have hne : ∀ id ∈ s.history.spawned, task.id ≠ id := by
    rintro id hid rfl
    exact hfresh hid
  constructor
  . exact hhistory
  . simpa [readyAfter, ExecutorHistory.record] using hinv.queue.enqueue task.priority task.id
  . intro e he
    simp only [readyAfter, List.mem_append, List.mem_singleton] at he
    simp only [ExecutorHistory.record, List.mem_cons]
    rcases he with he | rfl
    . obtain ⟨hspawned, hpriority⟩ := hinv.ready e he
      exact ⟨.inr hspawned, hpriority.insert (hne _ hspawned)⟩
    . exact ⟨.inl rfl, isPriorityOf_self⟩
  . intro waker hwaker
    exact (hinv.handedOut waker hwaker).insert (hne _ (hinv.history.handedOut waker hwaker))
  . intro id waker hget
    obtain ⟨hmem, hpriority⟩ := hinv.waker id waker hget
    exact ⟨ExtTreeMap.mem_insert.mpr (.inr hmem), hpriority.insert (hne _ (hinv.history.waker id waker hget))⟩
  . intro id hpc
    exact ExtTreeMap.mem_insert.mpr (.inr (hinv.poll id hpc))
  . intro id hid
    obtain ⟨hspawned, hgone⟩ := hinv.completed id hid
    have := hne id hspawned
    simp only [ExecutorHistory.record]
    grind

theorem Inv.wake {s s' : PollLog} {waker : TaskWaker} (hinv : s.Inv)
    (h : s.step (.act (.wake waker)) = .next s')
    : s'.Inv := by
  have hhistory := hinv.history.step (step_cases h).1
  obtain ⟨ex, henabled, hex, rfl⟩ := step_act_cases h
  simp only [Executor.step, Outcome.next.injEq] at hex
  subst hex
  have hwaker : waker ∈ s.history.handedOut := by simpa [ExecutorHistory.enabled] using henabled
  constructor
  . exact hhistory
  . simpa [readyAfter, ExecutorHistory.record, Executor.wakeTask] using
      hinv.queue.enqueue waker.taskPriority waker.taskId
  . intro e he
    simp only [readyAfter, List.mem_append, List.mem_singleton] at he
    rcases he with he | rfl
    . exact hinv.ready e he
    . exact ⟨hinv.history.handedOut waker hwaker, hinv.handedOut waker hwaker⟩
  . exact hinv.handedOut
  . exact hinv.waker
  . exact hinv.poll
  . exact hinv.completed

/--
What the head of the loop does: the queue is empty, or the loop takes out the first entry of the highest
priority and either skips it or polls the task.
-/
inductive DequeueStep (s s' : PollLog) : Prop where
  | drained (hready : s.ready = []) (hready' : s'.ready = [])
      (hhistory : s'.history = { s.history with executor := { s.history.executor with pc := .drained } })
  | skip {before after : List (TaskPriority × TaskId)} {e : TaskPriority × TaskId}
      {taskQueue : FastPriorityQueue TaskPriority TaskId}
      (hnext : StableQueue.IsNext FastPriorityQueue.key before e after)
      (hready : s.ready = before ++ e :: after) (hready' : s'.ready = before ++ after)
      (hrefines : taskQueue.Refines s'.ready) (hgone : s.history.executor.taskRegistry[e.2]? = none)
      (hhistory : s'.history = { s.history with executor := { s.history.executor with taskQueue } })
  | poll {before after : List (TaskPriority × TaskId)} {e : TaskPriority × TaskId} {task : Task}
      {taskQueue : FastPriorityQueue TaskPriority TaskId}
      (hnext : StableQueue.IsNext FastPriorityQueue.key before e after)
      (hready : s.ready = before ++ e :: after) (hready' : s'.ready = before ++ after)
      (hrefines : taskQueue.Refines s'.ready) (htask : s.history.executor.taskRegistry[e.2]? = some task)
      (hhistory : s'.history = s.history.record .dequeue
        {
          s.history.executor with
          taskQueue
          taskWaker := s.history.executor.taskWaker.insertIfNew e.2 (.create task.id task.priority)
          currentTaskPriority := task.priority
          pc := .poll e.2
        })

theorem dequeueStep {s s' : PollLog} (hinv : s.Inv) (h : s.step (.act .dequeue) = .next s')
    : s.history.executor.pc = .dequeue ∧ DequeueStep s s' := by
  obtain ⟨ex, _, hex, rfl⟩ := step_act_cases h
  have hpc : s.history.executor.pc = .dequeue ∧ ex = s.history.executor.runDequeue := by
    simp only [Executor.step] at hex
    grind
  obtain ⟨hpc, rfl⟩ := hpc
  refine ⟨hpc, ?_⟩
  rcases Executor.runDequeue_cases hinv.queue with ⟨hnil, hrun⟩ | ⟨e, l', q, hdequeue, hq, hrest⟩
  . obtain ⟨_, hnone⟩ | ⟨_, _, hsome, _⟩ := hinv.queue.dequeue
    . refine .drained hnil ?_ ?_
      . simp [readyAfter, hnone, hnil]
      . simp [ExecutorHistory.record, hrun]
    . simp [hnil, StableQueue.dequeue] at hsome
  . obtain ⟨hnil, _⟩ | ⟨e', _, hsome, hresult, _⟩ := hinv.queue.dequeue
    . simp [hnil, StableQueue.dequeue] at hdequeue
    . rw [hdequeue, Option.some.injEq, Prod.mk.injEq] at hsome
      obtain ⟨rfl, _⟩ := hsome
      obtain ⟨before, after, hready, rfl, hnext⟩ := StableQueue.dequeue_eq_some_iff.mp hdequeue
      have hbefore : e ∉ before := fun hmem => lt_irrefl _ (hnext.lt_of_mem_before e hmem)
      have hready' : s.readyAfter (.act .dequeue) = before ++ after := by
        simp only [readyAfter, hresult, hready, List.erase_append_right _ hbefore, List.erase_cons_head]
      rcases hrest with ⟨hgone, hrun⟩ | ⟨task, htask, hrun⟩
      . refine .skip hnext hready hready' (hready' ▸ hq) hgone ?_
        simp [ExecutorHistory.record, hrun, hpc]
      . exact .poll hnext hready hready' (hready' ▸ hq) htask (by rw [hrun])

theorem Inv.dequeue {s s' : PollLog} (hinv : s.Inv) (h : s.step (.act .dequeue) = .next s') : s'.Inv := by
  have hhistory := hinv.history.step (step_cases h).1
  obtain ⟨hpc, hdequeue⟩ := dequeueStep hinv h
  obtain ⟨history, ready⟩ := s'
  cases hdequeue with
  | drained hready hready' heq =>
    simp only at hready' heq
    subst hready' heq
    exact
      {
        history := hhistory, queue := hready ▸ hinv.queue, ready := by simp, handedOut := hinv.handedOut
        waker := hinv.waker, poll := by simp, completed := hinv.completed
      }
  | @skip before after e q hnext hready hready' hq hgone heq =>
    simp only at hready' heq hq
    subst hready' heq
    refine ⟨hhistory, hq, ?_, hinv.handedOut, hinv.waker, hinv.poll, hinv.completed⟩
    intro x hx
    apply hinv.ready x
    rw [hready]
    grind
  | @poll before after e task q hnext hready hready' hq htask heq =>
    simp only at hready' heq hq
    subst hready' heq
    have hmem : e.2 ∈ s.history.executor.taskRegistry :=
      ExtTreeMap.mem_iff_isSome_getElem?.mpr (by simp [htask])
    have hid : task.id = e.2 := (hinv.history.registry e.2 task htask).1
    have hwaker : ∀ (id : TaskId) (waker : TaskWaker),
        (s.history.executor.taskWaker.insertIfNew e.2 (.create task.id task.priority))[id]? = some waker →
        id ∈ s.history.executor.taskRegistry ∧
          IsPriorityOf s.history.executor.taskRegistry waker.taskPriority waker.taskId := by
      intro id waker hget
      rw [ExtTreeMap.getElem?_insertIfNew] at hget
      split at hget
      . next hkey =>
        have hkey : e.2 = id := by
          simp only [Std.LawfulEqOrd.compare_eq_iff_eq] at hkey
          exact hkey.1
        simp only [Option.some.injEq] at hget
        subst hget hkey
        refine ⟨hmem, ?_⟩
        intro t ht
        simp only [TaskWaker.create, hid, htask, Option.some.injEq] at ht
        rw [← ht]
        rfl
      . exact hinv.waker id waker hget
    refine ⟨hhistory, hq, ?_, ?_, hwaker, ?_, hinv.completed⟩
    . intro x hx
      apply hinv.ready x
      rw [hready]
      grind
    . intro waker hhanded
      rcases List.mem_append.mp hhanded with hhanded | hhanded
      . exact (hwaker e.2 waker (Option.mem_toList.mp hhanded)).2
      . exact hinv.handedOut waker hhanded
    . intro id hpoll
      simp only [ExecutorHistory.record, ExecutorPc.poll.injEq] at hpoll
      exact hpoll ▸ hmem

theorem step_ready {s s' : PollLog} (h : s.step (.act .ready) = .next s')
    : ∃ id, s.history.executor.pc = .poll id ∧ s'.ready = s.ready ∧
        s'.history.executor =
          {
            s.history.executor with
            taskRegistry := s.history.executor.taskRegistry.erase id
            taskWaker := s.history.executor.taskWaker.erase id
            pc := .dequeue
          } ∧
        s'.history.completed = id :: s.history.completed ∧ s'.history.spawned = s.history.spawned ∧
        s'.history.handedOut = s.history.handedOut := by
  obtain ⟨ex, _, hex, rfl⟩ := step_act_cases h
  simp only [Executor.step] at hex
  split at hex
  . next id hpc =>
    simp only [Outcome.next.injEq] at hex
    subst hex
    exact ⟨id, hpc, rfl, by simp [ExecutorHistory.record, hpc], by simp [ExecutorHistory.record, hpc],
      by simp [ExecutorHistory.record, hpc], by simp [ExecutorHistory.record, hpc]⟩
  . simp at hex

theorem Inv.return_ready {s s' : PollLog} (hinv : s.Inv) (h : s.step (.act .ready) = .next s') : s'.Inv := by
  have hhistory := hinv.history.step (step_cases h).1
  obtain ⟨id, hpc, hready, hex, hcompleted, hspawned, hhanded⟩ := step_ready h
  have hmem := hinv.poll id hpc
  constructor
  . exact hhistory
  . rw [hex, hready]
    exact hinv.queue
  . intro e he
    rw [hready] at he
    rw [hspawned, hex]
    exact ⟨(hinv.ready e he).1, (hinv.ready e he).2.erase⟩
  . intro waker hwaker
    rw [hhanded] at hwaker
    rw [hex]
    exact (hinv.handedOut waker hwaker).erase
  . intro i waker hget
    rw [hex] at hget ⊢
    rw [ExtTreeMap.getElem?_erase] at hget
    split at hget
    . simp at hget
    . next hne =>
      exact ⟨ExtTreeMap.mem_erase.mpr ⟨hne, (hinv.waker i waker hget).1⟩, (hinv.waker i waker hget).2.erase⟩
  . simp [hex]
  . intro i hi
    rw [hcompleted] at hi
    rw [hspawned, hex]
    rcases List.mem_cons.mp hi with rfl | hi
    . obtain ⟨task, htask⟩ := Option.isSome_iff_exists.mp (ExtTreeMap.mem_iff_isSome_getElem?.mp hmem)
      exact ⟨(hinv.history.registry i task htask).2, by simp⟩
    . exact ⟨(hinv.completed i hi).1, fun h => (hinv.completed i hi).2 (ExtTreeMap.mem_of_mem_erase h)⟩

theorem step_pc {s s' : PollLog} {action : ExecutorAction}
    (haction : action = .launch ∨ action = .pending ∨ action = .finish)
    (h : s.step (.act action) = .next s')
    : ∃ pc status, (∀ id, pc ≠ .poll id) ∧
        s' = ⟨{ s.history with executor := { s.history.executor with pc, status } }, s.ready⟩ := by
  obtain ⟨ex, _, hex, rfl⟩ := step_act_cases h
  rcases haction with rfl | rfl | rfl
  all_goals
    simp only [Executor.step] at hex
    split at hex
    . simp only [Outcome.next.injEq] at hex
      subst hex
      exact ⟨_, _, by simp, rfl⟩
    . simp at hex

theorem Inv.step_pc {s s' : PollLog} {action : ExecutorAction} (hinv : s.Inv)
    (haction : action = .launch ∨ action = .pending ∨ action = .finish)
    (h : s.step (.act action) = .next s')
    : s'.Inv := by
  have hhistory := hinv.history.step (step_cases h).1
  obtain ⟨pc, status, hpc, rfl⟩ := PollLog.step_pc haction h
  exact
    {
      history := hhistory, queue := hinv.queue, ready := hinv.ready, handedOut := hinv.handedOut
      waker := hinv.waker, poll := fun id heq => absurd heq (hpc id), completed := hinv.completed
    }

theorem step_drop {s s' : PollLog} (h : s.step .drop = .next s')
    : s' = ⟨{ s.history with dropped := true }, s.ready⟩ := by
  obtain ⟨hstep, hs'⟩ := step_cases h
  obtain ⟨_, hhistory⟩ := ExecutorHistory.step_drop_cases hstep
  exact hhistory ▸ hs'

theorem Inv.after {s s' : PollLog} {event : ExecutorEvent} (hinv : s.Inv) (hfresh : s.Fresh event)
    (h : s.step event = .next s')
    : s'.Inv := by
  cases event with
  | act action =>
    cases action with
    | spawn task => exact hinv.spawn hfresh h
    | wake waker => exact hinv.wake h
    | dequeue => exact hinv.dequeue h
    | ready => exact hinv.return_ready h
    | launch => exact hinv.step_pc (by simp) h
    | pending => exact hinv.step_pc (by simp) h
    | finish => exact hinv.step_pc (by simp) h
  | drop =>
    have hhistory := hinv.history.step (step_cases h).1
    have hs' := step_drop h
    subst hs'
    exact { hinv with history := hhistory }

theorem inv_of_run {s s' : PollLog} {events : List ExecutorEvent} (hrun : Run step Fresh s events s')
    (hinv : s.Inv)
    : s'.Inv := by
  apply hrun.invariant Inv hinv
  intro t t' event ht hfresh hstep
  exact ht.after hfresh hstep

theorem step_dequeue_executor {s s' : PollLog} (h : s.step (.act .dequeue) = .next s')
    : s'.history.executor = s.history.executor.runDequeue := by
  obtain ⟨ex, _, hex, rfl⟩ := step_act_cases h
  have hpc : ex = s.history.executor.runDequeue := by
    simp only [Executor.step] at hex
    grind
  subst hpc
  simp only [ExecutorHistory.record]
  split <;> rfl

theorem polled_of_poll {s s' : PollLog} {taskId : TaskId} (h : s.step (.act .dequeue) = .next s')
    (hpc : s'.history.executor.pc = .poll taskId)
    : s.polled (.act .dequeue) = [taskId] := by
  rw [step_dequeue_executor h] at hpc
  simp only [polled, hpc]

structure Woken (s : PollLog) (taskId : TaskId) : Prop where
  registered : taskId ∈ s.history.executor.taskRegistry
  queued : taskId ∈ s.ready.map Prod.snd

theorem Woken.of_not_polled {s s' : PollLog} {taskId : TaskId} (hwoken : s.Woken taskId) (hinv : s.Inv)
    (h : s.step (.act .dequeue) = .next s') (hpolled : taskId ∉ s.polled (.act .dequeue))
    : s'.Woken taskId ∧ s'.history.executor.pc ≠ .poll taskId := by
  obtain ⟨hpc, hdequeue⟩ := dequeueStep hinv h
  have hqueued := hwoken.queued
  cases hdequeue with
  | drained hready _ _ => simp [hready] at hqueued
  | @skip before after e q _ hready hready' _ hgone hhistory =>
    have hne : taskId ≠ e.2 := by
      rintro rfl
      have := ExtTreeMap.mem_iff_isSome_getElem?.mp hwoken.registered
      simp [hgone] at this
    refine ⟨⟨by rw [hhistory]; exact hwoken.registered, ?_⟩, by simp [hhistory, hpc]⟩
    rw [hready] at hqueued
    rw [hready']
    grind
  | @poll before after e task q _ hready hready' _ _ hhistory =>
    have hpoll : s'.history.executor.pc = .poll e.2 := by simp [hhistory, ExecutorHistory.record]
    rw [polled_of_poll h hpoll, List.mem_singleton] at hpolled
    refine ⟨⟨by simpa [hhistory, ExecutorHistory.record] using hwoken.registered, ?_⟩, ?_⟩
    . rw [hready] at hqueued
      rw [hready']
      grind
    . rw [hpoll]
      simpa using fun heq => hpolled heq.symm

theorem Woken.keep {s s' : PollLog} {taskId : TaskId} {event : ExecutorEvent} (hwoken : s.Woken taskId)
    (hevent : (∃ task, event = .act (.spawn task)) ∨ (∃ waker, event = .act (.wake waker)) ∨ event = .drop)
    (h : s.step event = .next s')
    : s'.Woken taskId ∧ s'.history.executor.pc = s.history.executor.pc := by
  obtain ⟨hregistered, hqueued⟩ := hwoken
  obtain ⟨task, rfl⟩ | ⟨waker, rfl⟩ | rfl := hevent
  . obtain ⟨ex, _, hex, rfl⟩ := step_act_cases h
    obtain ⟨_, _, _, rfl⟩ := Executor.step_spawn hex
    refine ⟨⟨ExtTreeMap.mem_insert.mpr (.inr hregistered), ?_⟩, rfl⟩
    simp only [readyAfter, List.map_append, List.mem_append]
    exact .inl hqueued
  . obtain ⟨ex, _, hex, rfl⟩ := step_act_cases h
    simp only [Executor.step, Outcome.next.injEq] at hex
    subst hex
    refine ⟨⟨hregistered, ?_⟩, rfl⟩
    simp only [readyAfter, List.map_append, List.mem_append]
    exact .inl hqueued
  . rw [step_drop h]
    exact ⟨⟨hregistered, hqueued⟩, rfl⟩

theorem Woken.after {s s' : PollLog} {taskId : TaskId} {event : ExecutorEvent} (hwoken : s.Woken taskId)
    (hpc : s.history.executor.pc ≠ .poll taskId) (hinv : s.Inv) (h : s.step event = .next s')
    : taskId ∈ s.polled event ∨ s'.Woken taskId ∧ s'.history.executor.pc ≠ .poll taskId := by
  have hkeep : s'.Woken taskId ∧ s'.history.executor.pc = s.history.executor.pc →
      s'.Woken taskId ∧ s'.history.executor.pc ≠ .poll taskId := fun hboth => ⟨hboth.1, hboth.2 ▸ hpc⟩
  cases event with
  | act action =>
    cases action with
    | spawn task => exact .inr (hkeep (hwoken.keep (.inl ⟨task, rfl⟩) h))
    | wake waker => exact .inr (hkeep (hwoken.keep (.inr (.inl ⟨waker, rfl⟩)) h))
    | dequeue =>
      by_cases hpolled : taskId ∈ s.polled (.act .dequeue)
      . exact .inl hpolled
      . exact .inr (hwoken.of_not_polled hinv h hpolled)
    | ready =>
      obtain ⟨id, hpoll, hready, hex, _⟩ := step_ready h
      have hne : taskId ≠ id := by
        rintro rfl
        exact hpc hpoll
      refine .inr ⟨⟨?_, hready ▸ hwoken.queued⟩, by simp [hex]⟩
      rw [hex]
      exact ExtTreeMap.mem_erase.mpr ⟨by simpa using hne.symm, hwoken.registered⟩
    | launch | pending | finish =>
      obtain ⟨pc, status, hnot, rfl⟩ := PollLog.step_pc (by simp) h
      exact .inr ⟨⟨hwoken.registered, hwoken.queued⟩, hnot taskId⟩
  | drop => exact .inr (hkeep (hwoken.keep (.inr (.inr rfl)) h))

theorem Woken.run {s s' : PollLog} {taskId : TaskId} {events : List ExecutorEvent}
    (hrun : Run step Fresh s events s') (hinv : s.Inv) (hwoken : s.Woken taskId)
    (hpc : s.history.executor.pc ≠ .poll taskId)
    : taskId ∈ observe step polled s events ∨
        s'.Woken taskId ∧ s'.history.executor.pc ≠ .poll taskId := by
  induction hrun with
  | nil => exact .inr ⟨hwoken, hpc⟩
  | cons hfresh hstep _ ih =>
    rw [Run.observe_cons hstep, List.mem_append]
    obtain hpolled | ⟨hwoken, hpc⟩ := hwoken.after hpc hinv hstep
    . exact .inl (.inl hpolled)
    . obtain hpolled | hend := ih (hinv.after hfresh hstep) hwoken hpc
      . exact .inl (.inr hpolled)
      . exact .inr hend

theorem Woken.run_in_poll {s s' : PollLog} {taskId : TaskId} {events : List ExecutorEvent}
    (hrun : Run step Fresh s events s') (hinv : s.Inv) (hwoken : s.Woken taskId)
    (hpc : s.history.executor.pc = .poll taskId) (hend : s'.history.executor.pc ≠ .poll taskId)
    : taskId ∈ observe step polled s events ∨ (observe step returned s events).head? = some true ∨
        s'.Woken taskId := by
  induction hrun with
  | nil => exact absurd hpc hend
  | @cons s s₁ s' event events hfresh hstep hrun ih =>
    have hinv₁ := hinv.after hfresh hstep
    have hkeep (hboth : s₁.Woken taskId ∧ s₁.history.executor.pc = s.history.executor.pc)
        (hpolled : s.polled event = []) (hreturned : s.returned event = [])
        : taskId ∈ observe step polled s (event :: events) ∨
            (observe step returned s (event :: events)).head? = some true ∨ s'.Woken taskId := by
      rw [Run.observe_cons hstep, Run.observe_cons hstep, hpolled, hreturned]
      exact ih hinv₁ hboth.1 (hboth.2.trans hpc) hend
    cases event with
    | act action =>
      cases action with
      | spawn task => exact hkeep (hwoken.keep (.inl ⟨task, rfl⟩) hstep) rfl rfl
      | wake waker => exact hkeep (hwoken.keep (.inr (.inl ⟨waker, rfl⟩)) hstep) rfl rfl
      | ready =>
        have hreturned : observe step returned s (.act .ready :: events) =
            true :: observe step returned s₁ events :=
          Run.observe_cons hstep
        rw [hreturned]
        exact .inr (.inl rfl)
      | pending =>
        obtain ⟨pc, status, hnot, rfl⟩ := PollLog.step_pc (by simp) hstep
        have hwoken₁ : Woken ⟨{ s.history with executor := { s.history.executor with pc, status } }, s.ready⟩
            taskId := ⟨hwoken.registered, hwoken.queued⟩
        obtain hpolled | hlast := hwoken₁.run hrun hinv₁ (hnot taskId)
        . refine .inl ?_
          rw [Run.observe_cons hstep]
          exact List.mem_append.mpr (.inr hpolled)
        . exact .inr (.inr hlast.1)
      | dequeue | launch | finish =>
        obtain ⟨ex, _, hex, _⟩ := step_act_cases hstep
        simp [Executor.step, hpc] at hex
    | drop => exact hkeep (hwoken.keep (.inr (.inr rfl)) hstep) rfl rfl

theorem Inv.woken {s s' : PollLog} {waker : TaskWaker} (hinv : s.Inv)
    (hnew : waker.taskId ∉ s.history.completed) (h : s.step (.act (.wake waker)) = .next s')
    : s'.Woken waker.taskId ∧ s'.history.executor.pc = s.history.executor.pc := by
  obtain ⟨ex, henabled, hex, rfl⟩ := step_act_cases h
  simp only [Executor.step, Outcome.next.injEq] at hex
  subst hex
  have hwaker : waker ∈ s.history.handedOut := by simpa [ExecutorHistory.enabled] using henabled
  have hspawned := hinv.history.handedOut waker hwaker
  refine ⟨⟨(hinv.history.spawned _ hspawned).resolve_right hnew, ?_⟩, rfl⟩
  simp [readyAfter]

theorem Inv.mem_registry_iff {s : PollLog} (hinv : s.Inv) (id : TaskId)
    : id ∈ s.history.executor.taskRegistry ↔ id ∈ s.history.spawned ∧ id ∉ s.history.completed := by
  constructor
  . intro hmem
    obtain ⟨task, htask⟩ := Option.isSome_iff_exists.mp (ExtTreeMap.mem_iff_isSome_getElem?.mp hmem)
    exact ⟨(hinv.history.registry id task htask).2, fun hdone => (hinv.completed id hdone).2 hmem⟩
  . rintro ⟨hspawned, hnew⟩
    exact (hinv.history.spawned id hspawned).resolve_right hnew

structure PollingDiscipline (s : PollLog) : Prop where
  -- The ready queue holds the entries of `ready`.
  queue : s.history.executor.taskQueue.Refines s.ready
  -- The task that is polled is registered and did not return `Ready` before. Its entry is the first
  -- one of its priority, and no entry has a higher one.
  polls : ∀ s' id, s.step (.act .dequeue) = .next s' → s'.history.executor.pc = .poll id →
    ∃ task before after, s.history.executor.taskRegistry[id]? = some task ∧ id ∉ s.history.completed ∧
      s.ready = before ++ (task.priority, id) :: after ∧
      (∀ e ∈ before, e.1.pri < task.priority.pri) ∧ ∀ e ∈ after, e.1.pri ≤ task.priority.pri
  -- A task that is woken before the loop finds its queue empty is polled again, or it returns `Ready`
  -- from the poll that is going on.
  wakes : ∀ waker s₁, s.step (.act (.wake waker)) = .next s₁ → waker.taskId ∉ s.history.completed →
    ∀ events s₂ s₃, Run step Fresh s₁ events s₂ → s₂.step (.act .dequeue) = .next s₃ →
      s₃.history.executor.pc = .drained →
      waker.taskId ∈ observe step polled s₁ events ∨
        s.history.executor.pc = .poll waker.taskId ∧ (observe step returned s₁ events).head? = some true
  wakers : ∀ id, id ∈ s.history.executor.taskWaker → id ∈ s.history.executor.taskRegistry
  -- In particular when `run` returns.
  registry : ∀ id, id ∈ s.history.executor.taskRegistry ↔
    id ∈ s.history.spawned ∧ id ∉ s.history.completed

theorem Inv.polls {s s' : PollLog} {id : TaskId} (hinv : s.Inv) (h : s.step (.act .dequeue) = .next s')
    (hpoll : s'.history.executor.pc = .poll id)
    : ∃ task before after, s.history.executor.taskRegistry[id]? = some task ∧ id ∉ s.history.completed ∧
        s.ready = before ++ (task.priority, id) :: after ∧
        (∀ e ∈ before, e.1.pri < task.priority.pri) ∧ ∀ e ∈ after, e.1.pri ≤ task.priority.pri := by
  obtain ⟨hpc, hdequeue⟩ := dequeueStep hinv h
  cases hdequeue with
  | drained _ _ hhistory => simp [hhistory] at hpoll
  | skip _ _ _ _ _ hhistory => simp [hhistory, hpc] at hpoll
  | @poll before after e task q hnext hready _ _ htask hhistory =>
    simp only [hhistory, ExecutorHistory.record, ExecutorPc.poll.injEq] at hpoll
    subst hpoll
    have hmem : e.2 ∈ s.history.executor.taskRegistry :=
      ExtTreeMap.mem_iff_isSome_getElem?.mpr (by simp [htask])
    have hpriority : task.priority = e.1 := (hinv.ready e (by simp [hready])).2 task htask
    refine ⟨task, before, after, htask, ((hinv.mem_registry_iff _).mp hmem).2, ?_, ?_, ?_⟩
    . rw [hpriority]
      exact hready
    . rw [hpriority]
      exact hnext.lt_of_mem_before
    . rw [hpriority]
      exact hnext.le_of_mem_after

theorem Inv.wakes {s s₁ s₂ s₃ : PollLog} {waker : TaskWaker} {events : List ExecutorEvent} (hinv : s.Inv)
    (h : s.step (.act (.wake waker)) = .next s₁) (hnew : waker.taskId ∉ s.history.completed)
    (hrun : Run step Fresh s₁ events s₂) (hdequeue : s₂.step (.act .dequeue) = .next s₃)
    (hdrained : s₃.history.executor.pc = .drained)
    : waker.taskId ∈ observe step polled s₁ events ∨
        s.history.executor.pc = .poll waker.taskId ∧
          (observe step returned s₁ events).head? = some true := by
  obtain ⟨hwoken, hsame⟩ := hinv.woken hnew h
  have hinv₁ := hinv.wake h
  obtain ⟨hpc₂, hstep₂⟩ := dequeueStep (inv_of_run hrun hinv₁) hdequeue
  have hempty : s₂.ready = [] := by
    cases hstep₂ with
    | drained hready _ _ => exact hready
    | skip _ _ _ _ _ hhistory => simp [hhistory, hpc₂] at hdrained
    | poll _ _ _ _ _ hhistory => simp [hhistory, ExecutorHistory.record] at hdrained
  have hlast : ¬s₂.Woken waker.taskId := by
    rintro ⟨_, hqueued⟩
    simp [hempty] at hqueued
  by_cases hpoll : s.history.executor.pc = .poll waker.taskId
  . obtain hpolled | hreturned | hend :=
      hwoken.run_in_poll hrun hinv₁ (hsame.trans hpoll) (by simp [hpc₂])
    . exact .inl hpolled
    . exact .inr ⟨hpoll, hreturned⟩
    . exact absurd hend hlast
  . obtain hpolled | hend := hwoken.run hrun hinv₁ (hsame ▸ hpoll)
    . exact .inl hpolled
    . exact absurd hend.1 hlast

theorem executor_pollingDiscipline (id : ExecutorId) (priority : ExecutorPriority) (rootTask : Task)
    {events : List ExecutorEvent} {s : PollLog} (hrun : Run step Fresh (init id priority rootTask) events s)
    : s.PollingDiscipline := by
  have hinv := inv_of_run hrun (inv_init id priority rootTask)
  constructor
  . exact hinv.queue
  . exact fun s' id h hpoll => hinv.polls h hpoll
  . exact fun waker s₁ h hnew events s₂ s₃ hrun hdequeue hdrained =>
      hinv.wakes h hnew hrun hdequeue hdrained
  . intro id hmem
    obtain ⟨waker, hwaker⟩ := Option.isSome_iff_exists.mp (ExtTreeMap.mem_iff_isSome_getElem?.mp hmem)
    exact (hinv.waker id waker hwaker).1
  . exact hinv.mem_registry_iff

instance (s : PollLog) (event : ExecutorEvent) : Decidable (s.Fresh event) := by
  induction event using ExecutorEvent.casesOn with
  | act action =>
    induction action using ExecutorAction.casesOn with
    | spawn task => exact inferInstanceAs (Decidable (task.id ∉ s.history.spawned))
    | _ => exact isTrue trivial
  | drop => exact isTrue trivial

-- The root task spawns a task of a higher priority and yields, then both return.
def spawningRoot : List ExecutorEvent :=
  [
    .act .launch, .act .dequeue, .act (.spawn ⟨⟨2⟩, ⟨5⟩⟩), .act (.wake ⟨⟨1⟩, ⟨0⟩⟩), .act .pending,
    .act .dequeue, .act .ready, .act .dequeue, .act .ready, .act .dequeue
  ]

theorem pollingDiscipline_spawningRoot
    : ∃ s, Run step Fresh (init ⟨1⟩ ⟨0⟩ ⟨⟨1⟩, ⟨0⟩⟩) spawningRoot s ∧
        observe step polled (init ⟨1⟩ ⟨0⟩ ⟨⟨1⟩, ⟨0⟩⟩) spawningRoot = [⟨1⟩, ⟨2⟩, ⟨1⟩] ∧
        s.history.executor.pc = .drained ∧ s.PollingDiscipline := by
  obtain ⟨s, hrun, hs⟩ := exists_run_of_exec (checked step Fresh) (init ⟨1⟩ ⟨0⟩ ⟨⟨1⟩, ⟨0⟩⟩) spawningRoot
    (fun s => decide (s.history.executor.pc = .drained)) (by decide +kernel)
  exact ⟨s, hrun.of_checked, by decide +kernel, by simpa using hs,
    executor_pollingDiscipline ⟨1⟩ ⟨0⟩ ⟨⟨1⟩, ⟨0⟩⟩ hrun.of_checked⟩

-- The root task calls its own waker and returns `Ready` from the same poll.
theorem wake_in_last_poll
    : ∃ s s₁ s₂ s₃, Run step Fresh (init ⟨1⟩ ⟨0⟩ ⟨⟨1⟩, ⟨0⟩⟩) [.act .launch, .act .dequeue] s ∧
        s.step (.act (.wake ⟨⟨1⟩, ⟨0⟩⟩)) = .next s₁ ∧ ⟨1⟩ ∉ s.history.completed ∧
        Run step Fresh s₁ [.act .ready, .act .dequeue] s₂ ∧ s₂.step (.act .dequeue) = .next s₃ ∧
        s₃.history.executor.pc = .drained ∧
        ⟨1⟩ ∉ observe step polled s₁ [.act .ready, .act .dequeue] := by
  obtain ⟨s, hrun, hs⟩ := exists_run_of_exec (checked step Fresh) (init ⟨1⟩ ⟨0⟩ ⟨⟨1⟩, ⟨0⟩⟩)
    [.act .launch, .act .dequeue]
    (fun s => decide (⟨1⟩ ∉ s.history.completed) && (s.step (.act (.wake ⟨⟨1⟩, ⟨0⟩⟩))).holds fun s₁ =>
      decide (⟨1⟩ ∉ observe step polled s₁ [.act .ready, .act .dequeue]) &&
        (exec (checked step Fresh) s₁ [.act .ready, .act .dequeue]).holds fun s₂ =>
          (s₂.step (.act .dequeue)).holds fun s₃ => decide (s₃.history.executor.pc = .drained))
    (by decide +kernel)
  simp only [Bool.and_eq_true, decide_eq_true_eq, Outcome.holds_iff] at hs
  obtain ⟨hnew, s₁, hwake, hpolled, s₂, hexec, s₃, hdequeue, hdrained⟩ := hs
  exact ⟨s, s₁, s₂, s₃, hrun.of_checked, hwake, hnew, (Run.of_exec hexec).of_checked, hdequeue, hdrained,
    hpolled⟩

end PollLog

end Jrinx
