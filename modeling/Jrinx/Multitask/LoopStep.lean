import Jrinx.Multitask.Cpu

/-!
This module says once what a step of a CPU can do to the registry of the runtime, its run queue, its
schedule table and its status. What happens inside of an inspector is left out here.
-/

namespace Jrinx

open Std

structure Runtime.Inner (rt rt' : Runtime) : Prop where
  queue : rt'.queue = rt.queue
  schedTable : rt'.schedTable = rt.schedTable
  status : rt'.status = rt.status
  registry : ∀ id, id ∈ rt'.registry ↔ id ∈ rt.registry

namespace Runtime

theorem Inner.refl (rt : Runtime) : rt.Inner rt := by
  constructor <;> simp

theorem inner_insert {rt : Runtime} {id : InspectorId} {is is' : Inspector}
    (h : rt.registry[id]? = some is)
    : rt.Inner { rt with registry := rt.registry.insert id is' } := by
  constructor
  . rfl
  . rfl
  . rfl
  . grind

theorem withInspector_of_some {β : Type} {rt : Runtime} {id : InspectorId} {is : Inspector}
    (h : rt.registry[id]? = some is) (f : Inspector → β × Inspector)
    : rt.withInspector id f = .ok ((f is).1, { rt with registry := rt.registry.insert id (f is).2 }) := by
  simp [withInspector, h]

theorem withInspector_eq_ok {β : Type} {rt rt' : Runtime} {id : InspectorId} {b : β}
    {f : Inspector → β × Inspector} (h : rt.withInspector id f = .ok (b, rt'))
    : ∃ is, rt.registry[id]? = some is ∧ b = (f is).1
        ∧ rt' = { rt with registry := rt.registry.insert id (f is).2 } := by
  unfold withInspector at h
  split at h
  . next is his =>
    simp only [Except.ok.injEq, Prod.mk.injEq] at h
    exact ⟨is, his, h.1.symm, h.2.symm⟩
  . simp at h

theorem withCurrentInspector_eq_ok {β : Type} {rt rt' : Runtime} {b : β}
    {f : Inspector → β × Inspector} (h : rt.withCurrentInspector f = .ok (b, rt'))
    : ∃ id is, rt.status = .running id ∧ rt.registry[id]? = some is ∧ b = (f is).1
        ∧ rt' = { rt with registry := rt.registry.insert id (f is).2 } := by
  unfold withCurrentInspector at h
  split at h
  . next id hstatus =>
    obtain ⟨is, his, hb, hrt⟩ := withInspector_eq_ok h
    exact ⟨id, is, hstatus, his, hb, hrt⟩
  . simp at h

theorem inner_of_withCurrentInspector {β : Type} {rt rt' : Runtime} {b : β}
    {f : Inspector → β × Inspector} (h : rt.withCurrentInspector f = .ok (b, rt'))
    : rt.Inner rt' := by
  obtain ⟨id, is, _, his, _, rfl⟩ := withCurrentInspector_eq_ok h
  exact inner_insert his

theorem inner_tryInspector (rt : Runtime) (id : InspectorId)
    (f : Inspector → Except InternalError Inspector)
    : rt.Inner (rt.tryInspector id f) := by
  unfold tryInspector
  split
  . next h =>
    obtain ⟨is, his, _, rfl⟩ := withInspector_eq_ok h
    exact inner_insert his
  . exact Inner.refl rt

theorem insert_self {rt : Runtime} {id : InspectorId} {is : Inspector}
    (h : rt.registry[id]? = some is)
    : { rt with registry := rt.registry.insert id is } = rt := by
  have : rt.registry.insert id is = rt.registry := by
    apply ExtTreeMap.ext_getElem?
    intro k
    rw [ExtTreeMap.getElem?_insert]
    grind
  rw [this]

end Runtime

inductive Jump (rt : Runtime) : RuntimePc → RuntimePc → Prop where
  | tableStart (h : rt.schedTable.isSome = true) : Jump rt .start .tableStart
  | testTable (h : rt.schedTable = none) : Jump rt .start .testTable
  | popFront (h : rt.schedTable = none) : Jump rt .testTable .popFront
  | enacted (h : rt.schedTable.isSome = true) : Jump rt .testTable (.leave .queue)
  | drained (h : rt.queue = []) : Jump rt .popFront (.leave .queue)
  | revoked (h : rt.schedTable = none) : Jump rt .tableNext (.leave .table)
  | restart (mode : VisitMode) : Jump rt (.leave mode) .start
  | haltQueue (h : rt.schedTable = none) : Jump rt (.leave .queue) .halt
  | haltTable (h : rt.schedTable.isSome = true) : Jump rt (.leave .table) .halt
  | retire {id : InspectorId} {is : Inspector} (hget : rt.registry[id]? = some is)
      (hempty : is.isEmpty = true) (hidle : is.status = .idle) : Jump rt (.testEmpty id) (.unregister id)
  | keep {id : InspectorId} {is : Inspector} (hget : rt.registry[id]? = some is)
      (hbusy : ¬(is.isEmpty = true ∧ is.status = .idle)) : Jump rt (.testEmpty id) (.pushBack id)
  | sendIpi (target : Option Nat) : Jump rt (.sendIpi target) (.setEndpoint target)
  | wfi : Jump rt .enableInt .wfi
  | asleep : Jump rt .wfi .asleep
  | start : Jump rt .disableInt .start

inductive LoopStep (c : Cpu) : CpuAction → Cpu → Prop where
  -- Something inside of an inspector, or nothing at all.
  | inner {a : CpuAction} {c' : Cpu} (ha : a ≠ .run) (hrt : c.rt.Inner c'.rt) (hpc : c'.pc = c.pc)
      : LoopStep c a c'
  | visit {a : CpuAction} {c' : Cpu} {mode : VisitMode} {id : InspectorId} {p p' : InspectorPc}
      (hrt : c.rt.Inner c'.rt) (hpc : c.pc = .visit mode id p) (hpc' : c'.pc = .visit mode id p')
      : LoopStep c a c'
  | visitEnd {c' : Cpu} {mode : VisitMode} {id : InspectorId} {p : InspectorPc}
      (hrt : c.rt.Inner c'.rt) (hpc : c.pc = .visit mode id p) (hpc' : c'.pc = .clearCurrent mode id)
      : LoopStep c .run c'
  | jump {c' : Cpu} (hrt : c'.rt = c.rt) (hjump : Jump c.rt c.pc c'.pc) : LoopStep c .run c'
  | wake {a : CpuAction} {c' : Cpu} (hrt : c'.rt = c.rt) (hpc : c.pc = .asleep)
      (hpc' : c'.pc = .disableInt) : LoopStep c a c'
  | stayAwake {c' : Cpu} {target : Option Nat} (hrt : c'.rt = c.rt) (hpc : c.pc = .halt)
      (hpc' : c'.pc = .sendIpi target) : LoopStep c (.stayAwake target) c'
  | popFront {c' : Cpu} {id : InspectorId} {queue : List InspectorId} (hqueue : c.rt.queue = id :: queue)
      (hrt : c'.rt = { c.rt with queue }) (hpc : c.pc = .popFront) (hpc' : c'.pc = .setCurrent .queue id)
      : LoopStep c .run c'
  | enter {c' : Cpu} {mode : VisitMode} {id : InspectorId}
      (hrt : c'.rt = { c.rt with status := .running id }) (hpc : c.pc = .setCurrent mode id)
      (hpc' : c'.pc = .visit mode id .dequeue) : LoopStep c .run c'
  | exitTable {c' : Cpu} {id : InspectorId} (hrt : c'.rt = { c.rt with status := .idle })
      (hpc : c.pc = .clearCurrent .table id) (hpc' : c'.pc = .tableNext) : LoopStep c .run c'
  | exitQueue {c' : Cpu} {id : InspectorId} (hrt : c'.rt = { c.rt with status := .idle })
      (hpc : c.pc = .clearCurrent .queue id) (hpc' : c'.pc = .testEmpty id) : LoopStep c .run c'
  | unregister {c' : Cpu} {id : InspectorId} (hmem : id ∈ c.rt.registry)
      (hrt : c'.rt = { c.rt with registry := c.rt.registry.erase id }) (hpc : c.pc = .unregister id)
      (hpc' : c'.pc = .testTable) : LoopStep c .run c'
  | pushBack {c' : Cpu} {id : InspectorId} (hmem : id ∈ c.rt.registry)
      (hrt : c'.rt = { c.rt with queue := c.rt.queue ++ [id] }) (hpc : c.pc = .pushBack id)
      (hpc' : c'.pc = .testTable) : LoopStep c .run c'
  | tableStart {c' : Cpu} {now : Duration} {table : RuntimeSchedTable}
      (htable : c.rt.schedTable = some table)
      (hrt : c'.rt = { c.rt with schedTable := some (table.start now) }) (hpc : c.pc = .tableStart)
      (hpc' : c'.pc = .tableNext) : LoopStep c (.startTable now) c'
  | tableNext {c' : Cpu} {table table' : RuntimeSchedTable} {entry : RuntimeSchedTableEntry}
      (htable : c.rt.schedTable = some table) (hnext : table.schedNext = .next (entry, table'))
      (hrt : c'.rt = { c.rt with schedTable := some table' }) (hpc : c.pc = .tableNext)
      (hpc' : c'.pc = .setCurrent .table entry.inspectorId) : LoopStep c .run c'
  | endpoint {c' : Cpu} {target : Option Nat} (hrt : c'.rt = { c.rt with status := .endpoint })
      (hpc : c.pc = .setEndpoint target) (hpc' : c'.pc = .enableInt) : LoopStep c .run c'
  | opRegister {c' : Cpu} {id : InspectorId} {rootExecutor : Executor} {others : List Executor}
      (hmem : id ∉ c.rt.registry)
      (hrt : c'.rt =
        {
          c.rt with
          registry := c.rt.registry.insert id (.new id rootExecutor others)
          queue := c.rt.queue ++ [id]
        })
      (hpc : c'.pc = c.pc) : LoopStep c (.op (.register id rootExecutor others)) c'
  | opUnregister {c' : Cpu} {id : InspectorId} (hmem : id ∈ c.rt.registry)
      (hrt : c'.rt = { c.rt with registry := c.rt.registry.erase id }) (hpc : c'.pc = c.pc)
      : LoopStep c (.op (.unregister id)) c'
  | opEnact {c' : Cpu} {schedTable : RuntimeSchedTable} (htable : c.rt.schedTable = none)
      (hrt : c'.rt =
        {
          c.rt with
          queue := c.rt.queue.filter (fun id => schedTable.table.all (·.inspectorId ≠ id))
          schedTable := some schedTable
        })
      (hpc : c'.pc = c.pc) : LoopStep c (.op (.enactSchedTable schedTable)) c'
  | opRevoke {c' : Cpu} {schedTable : RuntimeSchedTable} (htable : c.rt.schedTable = some schedTable)
      (hrt : c'.rt = { c.rt with schedTable := none }) (hpc : c'.pc = c.pc)
      : LoopStep c (.op .revokeSchedTable) c'

namespace Inspector

theorem tryRegister_id (is : Inspector) (executor : Executor) : (is.tryRegister executor).id = is.id := by
  unfold tryRegister register
  split
  . next h =>
    split at h
    . simp at h
    . simp only [Except.ok.injEq] at h
      subst h
      rfl
  . rfl

@[simp]
theorem new_id (id : InspectorId) (rootExecutor : Executor) (others : List Executor)
    : (new id rootExecutor others).id = id := by
  have hfold : ∀ (is : Inspector), (others.foldl tryRegister is).id = is.id := by
    induction others with
    | nil => simp
    | cons ex others ih =>
      intro is
      rw [List.foldl_cons, ih, tryRegister_id]
  rw [new, hfold, tryRegister_id]
  rfl

theorem tryRegister_status (is : Inspector) (ex : Executor)
    : (is.tryRegister ex).status = is.status := by
  unfold tryRegister register
  by_cases hnew : ex.id ∈ is.registry
  . rw [if_pos hnew]
  . rw [if_neg hnew]

theorem new_status (id : InspectorId) (rootExecutor : Executor) (others : List Executor)
    : (new id rootExecutor others).status = .idle := by
  have hfold : ∀ (is : Inspector), (others.foldl tryRegister is).status = is.status := by
    induction others with
    | nil => simp
    | cons ex others ih =>
      intro is
      rw [List.foldl_cons, ih, tryRegister_status]
  rw [new, hfold, tryRegister_status]
  rfl

end Inspector

namespace Cpu

theorem loopStep_inspectorRun {c c' : Cpu} {mode : VisitMode} {id : InspectorId} {p : InspectorPc}
    (hpc : c.pc = .visit mode id p) (h : c.inspectorRun mode id p = .next c')
    : LoopStep c .run c' := by
  cases p with
  | dequeue =>
    obtain ⟨⟨x, rt⟩, hok, h⟩ := Outcome.unwrap_eq_next h
    have hrt := Runtime.inner_of_withCurrentInspector hok
    cases x with
    | some x =>
      simp only [Outcome.next.injEq] at h
      subst h
      exact .visit hrt hpc rfl
    | none =>
      simp only [Outcome.next.injEq] at h
      subst h
      exact .visitEnd hrt hpc rfl
  | setCurrent x | clearCurrent x =>
    obtain ⟨⟨_, rt⟩, hok, h⟩ := Outcome.unwrap_eq_next h
    have hrt := Runtime.inner_of_withCurrentInspector hok
    simp only [Outcome.next.injEq] at h
    subst h
    exact .visit hrt hpc rfl
  | switchTo x | unregister x | enqueue x =>
    obtain ⟨⟨_, rt⟩, hok, h⟩ := Outcome.unwrap_eq_next h
    have hrt := Runtime.inner_of_withCurrentInspector hok
    obtain ⟨_, _, h⟩ := Outcome.unwrap_eq_next h
    simp only [Outcome.next.injEq] at h
    subst h
    exact .visit hrt hpc rfl
  | executing x current => simp [inspectorRun] at h
  | testFinished x =>
    obtain ⟨⟨_, rt⟩, hok, h⟩ := Outcome.unwrap_eq_next h
    have hrt := Runtime.inner_of_withCurrentInspector hok
    obtain ⟨_, _, h⟩ := Outcome.unwrap_eq_next h
    split at h
    all_goals
      simp only [Outcome.next.injEq] at h
      subst h
      exact .visit hrt hpc rfl
  | testPending x =>
    obtain ⟨⟨status, rt⟩, hok, h⟩ := Outcome.unwrap_eq_next h
    have hrt := Runtime.inner_of_withCurrentInspector hok
    cases status with
    | pending y =>
      simp only [Outcome.next.injEq] at h
      subst h
      exact .visitEnd hrt hpc rfl
    | idle | running y =>
      simp only [Outcome.next.injEq] at h
      subst h
      exact .visit hrt hpc rfl

theorem loopStep_runStep {c c' : Cpu} (h : c.runStep = .next c') : LoopStep c .run c' := by
  cases hpc : c.pc with
  | visit mode id p =>
    simp only [runStep, hpc] at h
    exact loopStep_inspectorRun hpc h
  | start =>
    simp only [runStep, hpc, Outcome.next.injEq] at h
    subst h
    refine .jump rfl ?_
    rw [hpc]
    split
    . next hsome => exact .tableStart hsome
    . next hsome => exact .testTable (by simpa using hsome)
  | tableNext =>
    simp only [runStep, hpc, Runtime.schedTableNext] at h
    cases htable : c.rt.schedTable with
    | none =>
      simp only [htable, Outcome.next.injEq] at h
      subst h
      refine .jump rfl ?_
      rw [hpc]
      exact .revoked htable
    | some table =>
      simp only [htable] at h
      cases hnext : table.schedNext with
      | next e =>
        simp only [hnext, Outcome.map_next, Outcome.next.injEq] at h
        subst h
        exact .tableNext htable hnext rfl hpc rfl
      | panic => simp [hnext] at h
      | disabled => simp [hnext] at h
  | testTable =>
    simp only [runStep, hpc, Outcome.next.injEq] at h
    subst h
    refine .jump rfl ?_
    rw [hpc]
    split
    . next hnone => exact .popFront (by simpa using hnone)
    . next hnone => exact .enacted (by simpa [Option.isSome_iff_ne_none] using hnone)
  | popFront =>
    simp only [runStep, hpc, Runtime.popFront] at h
    cases hqueue : c.rt.queue with
    | nil =>
      simp only [hqueue, Outcome.next.injEq] at h
      subst h
      refine .jump rfl ?_
      rw [hpc]
      exact .drained hqueue
    | cons id queue =>
      simp only [hqueue, Outcome.next.injEq] at h
      subst h
      exact .popFront hqueue rfl hpc rfl
  | setCurrent mode id =>
    simp only [runStep, hpc, Outcome.next.injEq] at h
    subst h
    exact .enter rfl hpc rfl
  | clearCurrent mode id =>
    cases mode with
    | table =>
      simp only [runStep, hpc, Outcome.next.injEq] at h
      subst h
      exact .exitTable rfl hpc rfl
    | queue =>
      simp only [runStep, hpc, Outcome.next.injEq] at h
      subst h
      exact .exitQueue rfl hpc rfl
  | testEmpty id =>
    simp only [runStep, hpc] at h
    obtain ⟨⟨b, rt⟩, hok, h⟩ := Outcome.unwrap_eq_next h
    obtain ⟨is, his, rfl, rfl⟩ := Runtime.withInspector_eq_ok hok
    rw [Runtime.insert_self his, Outcome.next.injEq] at h
    subst h
    refine .jump rfl ?_
    rw [hpc]
    split
    . next hboth =>
      simp only [Bool.and_eq_true, decide_eq_true_eq] at hboth
      exact .retire his hboth.1 hboth.2
    . next hboth =>
      simp only [Bool.and_eq_true, decide_eq_true_eq] at hboth
      exact .keep his hboth
  | unregister id =>
    simp only [runStep, hpc, Runtime.unregister] at h
    split at h
    . next hmem =>
      simp only [Outcome.unwrap_ok, Outcome.next.injEq] at h
      subst h
      exact .unregister hmem rfl hpc rfl
    . simp at h
  | pushBack id =>
    simp only [runStep, hpc, Runtime.pushBack] at h
    split at h
    . next hmem =>
      simp only [Outcome.unwrap_ok, Outcome.next.injEq] at h
      subst h
      exact .pushBack hmem rfl hpc rfl
    . simp at h
  | leave mode =>
    cases mode with
    | table =>
      simp only [runStep, hpc, Outcome.next.injEq] at h
      subst h
      refine .jump rfl ?_
      rw [hpc]
      split
      . exact .restart .table
      . next hnone => exact .haltTable (by simpa [Option.isSome_iff_ne_none] using hnone)
    | queue =>
      simp only [runStep, hpc, Outcome.next.injEq] at h
      subst h
      refine .jump rfl ?_
      rw [hpc]
      split
      . exact .restart .queue
      . next hnone => exact .haltQueue (by simpa using hnone)
  | setEndpoint target =>
    simp only [runStep, hpc, Outcome.next.injEq] at h
    subst h
    exact .endpoint rfl hpc rfl
  | sendIpi target | enableInt | wfi | disableInt =>
    simp only [runStep, hpc, Outcome.next.injEq] at h
    subst h
    refine .jump rfl ?_
    rw [hpc]
    constructor
  | tableStart | halt | asleep => simp [runStep, hpc] at h

theorem loopStep_op {c c' : Cpu} {op : RuntimeOp} (h : c.step (.op op) = .next c')
    : LoopStep c (.op op) c' := by
  simp only [step, Outcome.next.injEq] at h
  subst h
  cases op with
  | register id rootExecutor others =>
    simp only [Runtime.applyOp, Runtime.register, Inspector.new_id]
    split
    . exact .inner (by simp) (.refl _) rfl
    . next hmem => exact .opRegister hmem rfl rfl
  | unregister id =>
    simp only [Runtime.applyOp, Runtime.unregister]
    split
    . next hmem => exact .opUnregister hmem rfl rfl
    . exact .inner (by simp) (.refl _) rfl
  | enactSchedTable schedTable =>
    simp only [Runtime.applyOp, Runtime.enactSchedTable]
    split
    . exact .inner (by simp) (.refl _) rfl
    . next hnone => exact .opEnact (by simpa using hnone) rfl rfl
  | revokeSchedTable =>
    simp only [Runtime.applyOp, Runtime.revokeSchedTable]
    split
    . next table htable => exact .opRevoke htable rfl rfl
    . exact .inner (by simp) (.refl _) rfl
  | registerExecutor id executor | unregisterExecutor id executorId | markPending id
  | wake id executorId waker =>
    exact .inner (by simp) (Runtime.inner_tryInspector _ _ _) rfl

theorem step_execute_pc {c c' : Cpu} {action : ExecutorAction}
    (h : c.step (.execute action) = .next c')
    : c'.pc = c.pc := by
  simp only [step, execute] at h
  split at h
  . split at h
    . simp at h
    . split at h
      . simp at h
      . obtain ⟨_, _, rfl⟩ := Outcome.map_eq_next h
        rfl
  . simp at h

theorem loopStep_execute {c c' : Cpu} {action : ExecutorAction}
    (h : c.step (.execute action) = .next c')
    : LoopStep c (.execute action) c' := by
  simp only [step, execute] at h
  split at h
  . split at h
    . simp at h
    . next is his =>
      split at h
      . simp at h
      . obtain ⟨ex, _, rfl⟩ := Outcome.map_eq_next h
        exact .inner (by simp) (Runtime.inner_insert his) rfl
  . simp at h

theorem loopStep_yield {c c' : Cpu} (h : c.step .yield = .next c') : LoopStep c .yield c' := by
  simp only [step, yield] at h
  split at h
  . next hpc =>
    obtain ⟨⟨_, rt⟩, hok, h⟩ := Outcome.unwrap_eq_next h
    have hrt := Runtime.inner_of_withCurrentInspector hok
    obtain ⟨_, _, h⟩ := Outcome.unwrap_eq_next h
    simp only [Outcome.next.injEq] at h
    subst h
    exact .visit hrt hpc rfl
  . simp at h

theorem step_softInt_cases {c c' : Cpu} (h : c.step .softInt = .next c')
    : c.softPending = true ∧ c'.softPending = false ∧ c'.rt = c.rt ∧
        ((c'.pc = c.pc ∧ c.pc ≠ .asleep) ∨ (c.pc = .asleep ∧ c'.pc = .disableInt)) := by
  simp only [step, softInt] at h
  split at h
  . next hpending =>
    cases hpc : c.pc with
    | visit | wfi | disableInt =>
      simp only [hpc, Outcome.next.injEq] at h
      subst h
      exact ⟨hpending, rfl, rfl, .inl ⟨by simp, by simp⟩⟩
    | asleep =>
      simp only [hpc, Outcome.next.injEq] at h
      subst h
      exact ⟨hpending, rfl, rfl, .inr ⟨rfl, rfl⟩⟩
    | _ => simp [hpc] at h
  . simp at h

theorem loopStep_softInt {c c' : Cpu} (h : c.step .softInt = .next c') : LoopStep c .softInt c' := by
  obtain ⟨_, _, hrt, ⟨hpc, _⟩ | ⟨hpc, hpc'⟩⟩ := step_softInt_cases h
  . exact .inner (by simp) (hrt ▸ .refl _) hpc
  . exact .wake hrt hpc hpc'

theorem loopStep {c c' : Cpu} {a : CpuAction} (h : c.step a = .next c') : LoopStep c a c' := by
  cases a with
  | run => exact loopStep_runStep h
  | execute action => exact loopStep_execute h
  | yield => exact loopStep_yield h
  | op op => exact loopStep_op h
  | softInt => exact loopStep_softInt h
  | startTable now =>
    simp only [step] at h
    split at h
    . next hpc =>
      obtain ⟨rt, hok, h⟩ := Outcome.unwrap_eq_next h
      simp only [Runtime.schedTableStart] at hok
      split at hok
      . next table htable =>
        simp only [Except.ok.injEq] at hok
        simp only [Outcome.next.injEq] at h
        subst hok h
        exact .tableStart htable rfl hpc rfl
      . simp at hok
    . simp at h
  | stayAwake target =>
    simp only [step] at h
    split at h
    . next hpc =>
      simp only [Outcome.next.injEq] at h
      subst h
      exact .stayAwake rfl hpc rfl
    . simp at h
  | receiveIpi =>
    simp only [step, Outcome.next.injEq] at h
    subst h
    exact .inner (by simp) (.refl _) rfl
  | wakeUp =>
    simp only [step] at h
    split at h
    . next hpc =>
      simp only [Outcome.next.injEq] at h
      subst h
      exact .wake rfl hpc rfl
    . simp at h

end Cpu

def RuntimePc.held : RuntimePc → List InspectorId
  | .setCurrent .queue id | .visit .queue id _ | .clearCurrent .queue id => [id]
  | .testEmpty id | .unregister id | .pushBack id => [id]
  | _ => []

def Cpu.visited (c : Cpu) (a : CpuAction) : List InspectorId :=
  match a, c.pc with
  | .run, .popFront => c.rt.queue.head?.toList
  | _, _ => []

namespace Runtime

def Named (rt : Runtime) (id : InspectorId) : Prop :=
  ∃ table, rt.schedTable = some table ∧ table.names id = true

structure SameTable (rt rt' : Runtime) : Prop where
  isSome : rt'.schedTable.isSome = rt.schedTable.isSome
  named : ∀ id, rt'.Named id ↔ rt.Named id

theorem SameTable.of_eq {rt rt' : Runtime} (h : rt'.schedTable = rt.schedTable)
    : rt.SameTable rt' := by
  constructor <;> simp [Named, h]

theorem SameTable.of_names {rt rt' : Runtime} {table table' : RuntimeSchedTable}
    (h : rt.schedTable = some table) (h' : rt'.schedTable = some table')
    (htable : table'.table = table.table)
    : rt.SameTable rt' := by
  constructor <;> simp [Named, h, h', RuntimeSchedTable.names, htable]

end Runtime

inductive QueueStep (c : Cpu) : CpuAction → Cpu → Prop where
  | same {a : CpuAction} {c' : Cpu} (hvisited : c.visited a = []) (hqueue : c'.rt.queue = c.rt.queue)
      (hheld : c'.pc.held = c.pc.held) (hmem : ∀ id, id ∈ c'.rt.registry ↔ id ∈ c.rt.registry)
      (htable : c.rt.SameTable c'.rt) : QueueStep c a c'
  | popFront {c' : Cpu} {id : InspectorId} (hpc : c.pc = .popFront)
      (hqueue : c.rt.queue = id :: c'.rt.queue) (hheld : c'.pc.held = [id])
      (hmem : c'.rt.registry = c.rt.registry) (htable : c.rt.SameTable c'.rt)
      : QueueStep c .run c'
  | unregister {c' : Cpu} {id : InspectorId} (hpc : c.pc = .unregister id)
      (hqueue : c'.rt.queue = c.rt.queue) (hheld : c'.pc.held = [])
      (hmem : c'.rt.registry = c.rt.registry.erase id) (htable : c.rt.SameTable c'.rt)
      : QueueStep c .run c'
  | pushBack {c' : Cpu} {id : InspectorId} (hpc : c.pc = .pushBack id)
      (hqueue : c'.rt.queue = c.rt.queue ++ [id]) (hheld : c'.pc.held = [])
      (hmem : c'.rt.registry = c.rt.registry) (htable : c.rt.SameTable c'.rt)
      : QueueStep c .run c'
  | opRegister {c' : Cpu} {id : InspectorId} {rootExecutor : Executor} {others : List Executor}
      (hnew : id ∉ c.rt.registry) (hqueue : c'.rt.queue = c.rt.queue ++ [id]) (hpc : c'.pc = c.pc)
      (hmem : ∀ x, x ∈ c'.rt.registry ↔ x = id ∨ x ∈ c.rt.registry) (htable : c.rt.SameTable c'.rt)
      : QueueStep c (.op (.register id rootExecutor others)) c'
  | opUnregister {c' : Cpu} {id : InspectorId} (hreg : id ∈ c.rt.registry)
      (hqueue : c'.rt.queue = c.rt.queue) (hpc : c'.pc = c.pc)
      (hmem : c'.rt.registry = c.rt.registry.erase id) (htable : c.rt.SameTable c'.rt)
      : QueueStep c (.op (.unregister id)) c'
  | opEnact {c' : Cpu} {schedTable : RuntimeSchedTable} (hnone : c.rt.schedTable = none)
      (hqueue : c'.rt.queue = c.rt.queue.filter (fun id => !schedTable.names id)) (hpc : c'.pc = c.pc)
      (hmem : c'.rt.registry = c.rt.registry) (htable : c'.rt.schedTable = some schedTable)
      : QueueStep c (.op (.enactSchedTable schedTable)) c'
  | opRevoke {c' : Cpu} {schedTable : RuntimeSchedTable} (hsome : c.rt.schedTable = some schedTable)
      (hqueue : c'.rt.queue = c.rt.queue) (hpc : c'.pc = c.pc)
      (hmem : c'.rt.registry = c.rt.registry) (htable : c'.rt.schedTable = none)
      : QueueStep c (.op .revokeSchedTable) c'

theorem Cpu.visited_of_ne {c : Cpu} {a : CpuAction} (h : a ≠ .run ∨ c.pc ≠ .popFront)
    : c.visited a = [] := by
  unfold visited
  split
  . simp_all
  . rfl

theorem Jump.visited_eq {c : Cpu} {pc' : RuntimePc} (h : Jump c.rt c.pc pc') : c.visited .run = [] := by
  unfold Cpu.visited
  split
  . next hpc =>
    rw [hpc] at h
    cases h with
    | drained hqueue => simp [hqueue]
  . rfl

theorem Jump.held_eq {rt : Runtime} {pc pc' : RuntimePc} (h : Jump rt pc pc')
    : pc'.held = pc.held := by
  cases h <;> rfl

theorem LoopStep.queueStep {c c' : Cpu} {a : CpuAction} (h : LoopStep c a c') : QueueStep c a c' := by
  cases h with
  | inner ha hrt hpc =>
    exact .same (Cpu.visited_of_ne (.inl ha)) hrt.queue (by rw [hpc]) hrt.registry (.of_eq hrt.schedTable)
  | @visit _ _ mode _ _ _ hrt hpc hpc' =>
    have hne : c.pc ≠ .popFront := by simp [hpc]
    refine .same (Cpu.visited_of_ne (.inr hne)) hrt.queue ?_ hrt.registry (.of_eq hrt.schedTable)
    cases mode <;> simp [hpc, hpc', RuntimePc.held]
  | @visitEnd _ mode _ _ hrt hpc hpc' =>
    have hne : c.pc ≠ .popFront := by simp [hpc]
    refine .same (Cpu.visited_of_ne (.inr hne)) hrt.queue ?_ hrt.registry (.of_eq hrt.schedTable)
    cases mode <;> simp [hpc, hpc', RuntimePc.held]
  | jump hrt hjump =>
    exact .same hjump.visited_eq (by rw [hrt]) hjump.held_eq (by simp [hrt]) (.of_eq (by rw [hrt]))
  | wake hrt hpc hpc' | stayAwake hrt hpc hpc' | exitTable hrt hpc hpc' | exitQueue hrt hpc hpc'
  | endpoint hrt hpc hpc' =>
    exact .same (Cpu.visited_of_ne (.inr (by simp [hpc]))) (by rw [hrt])
      (by simp [hpc, hpc', RuntimePc.held]) (by simp [hrt])
      (.of_eq (by rw [hrt]))
  | @enter _ mode _ hrt hpc hpc' =>
    have hne : c.pc ≠ .popFront := by simp [hpc]
    refine .same (Cpu.visited_of_ne (.inr hne)) (by rw [hrt]) ?_ (by simp [hrt]) (.of_eq (by rw [hrt]))
    cases mode <;> simp [hpc, hpc', RuntimePc.held]
  | popFront hqueue hrt hpc hpc' =>
    refine .popFront hpc ?_ (by rw [hpc', RuntimePc.held]) (by rw [hrt]) (.of_eq (by rw [hrt]))
    rw [hqueue, hrt]
  | unregister hmem hrt hpc hpc' =>
    exact .unregister hpc (by rw [hrt]) (by simp [hpc', RuntimePc.held]) (by rw [hrt])
      (.of_eq (by rw [hrt]))
  | pushBack hmem hrt hpc hpc' =>
    exact .pushBack hpc (by rw [hrt]) (by simp [hpc', RuntimePc.held]) (by rw [hrt])
      (.of_eq (by rw [hrt]))
  | @tableStart _ now table htable hrt hpc hpc' =>
    have htable' : c'.rt.schedTable = some (table.start now) := by rw [hrt]
    exact .same (Cpu.visited_of_ne (.inr (by simp [hpc]))) (by rw [hrt])
      (by simp [hpc, hpc', RuntimePc.held]) (by simp [hrt])
      (.of_names htable htable' rfl)
  | @tableNext _ table table' _ htable hnext hrt hpc hpc' =>
    have htable' : c'.rt.schedTable = some table' := by rw [hrt]
    exact .same (Cpu.visited_of_ne (.inr (by simp [hpc]))) (by rw [hrt])
      (by simp [hpc, hpc', RuntimePc.held]) (by simp [hrt])
      (.of_names htable htable' (RuntimeSchedTable.schedNext_spec hnext).2)
  | opRegister hmem hrt hpc =>
    refine .opRegister hmem (by rw [hrt]) hpc ?_ (.of_eq (by rw [hrt]))
    intro x
    rw [hrt]
    grind
  | opUnregister hmem hrt hpc =>
    exact .opUnregister hmem (by rw [hrt]) hpc (by rw [hrt]) (.of_eq (by rw [hrt]))
  | opEnact hnone hrt hpc =>
    refine .opEnact hnone ?_ hpc (by rw [hrt]) (by rw [hrt])
    rw [hrt]
    apply List.filter_congr
    intro id _
    simp [RuntimeSchedTable.names, List.all_eq_not_any_not]
  | opRevoke hsome hrt hpc => exact .opRevoke hsome (by rw [hrt]) hpc (by rw [hrt]) (by rw [hrt])

theorem Cpu.queueStep {c c' : Cpu} {a : CpuAction} (h : c.step a = .next c') : QueueStep c a c' :=
  (Cpu.loopStep h).queueStep

end Jrinx
