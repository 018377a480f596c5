import Jrinx.Multitask.InspectorStep

/-!
This module contains the end of an inspector without executors: the run loop takes it out of the
registry of the runtime if it is idle after a visit, and the mark that a visit should end outlives the
visit.
-/

namespace Jrinx

open Std

def InspectorStatus.isPending : InspectorStatus → Bool
  | .pending _ => true
  | _ => false

namespace InspectorPc

-- Between `set_current(Some(..))` and `set_current(None)`.
def occupied : Option InspectorPc → Bool
  | some (.switchTo _) | some (.executing _ _) | some (.clearCurrent _) => true
  | _ => false

-- Also `with_executor(..).unwrap()` is still to come, which panics without executors.
def beforeLookup : Option InspectorPc → Bool
  | some (.testFinished _) => true
  | p => occupied p

theorem beforeLookup_of_occupied {p : Option InspectorPc} (h : occupied p = true)
    : beforeLookup p = true := by
  unfold beforeLookup
  split
  . rfl
  . exact h

theorem not_occupied {p : Option InspectorPc} (h : beforeLookup p = false) : occupied p = false := by
  by_contra hoccupied
  rw [beforeLookup_of_occupied (by simpa using hoccupied)] at h
  simp at h

end InspectorPc

namespace Retire

/--
A drained inspector is idle when `Inspector::run` returns, and `run_without_sched_table` takes it out of
the registry after the visit.
-/
def Retires (c : Cpu) : Prop :=
  ∀ id is, c.rt.registry[id]? = some is → is.isEmpty = true →
    (∀ mode, c.pc = .clearCurrent mode id → is.status = .idle) ∧
      (c.pc = .testEmpty id → ∃ c', exec Cpu.step c [.run, .run] = .next c' ∧ id ∉ c'.rt.registry)

def removed (c : Cpu) (a : CpuAction) : Option (InspectorId × ExecutorId) :=
  match a with
  | .run =>
    match c.pc with
    | .visit _ id (.unregister x) => some (id, x)
    | _ => none
  | .op (.unregisterExecutor id x) => some (id, x)
  | _ => none

/--
The last executor of an inspector is not taken out while the inspector is marked as pending.
-/
def NoneMarked (c : Cpu) (a : CpuAction) : Prop :=
  ∀ e ∈ removed c a, ∀ is ∈ c.rt.registry[e.1]?, e.2 ∈ is.registry →
    (is.registry.erase e.2).isEmpty = true → is.status.isPending = false

structure Inv (is : Inspector) (p : Option InspectorPc) : Prop where
  running : ∀ x, is.status = .running x → InspectorPc.occupied p = true
  pending : is.isEmpty = true → is.status.isPending = true → InspectorPc.beforeLookup p = true

theorem removed_unregister {c : Cpu} {id : InspectorId} {x : ExecutorId}
    (hpc : c.pc.inspectorPc id = some (.unregister x))
    : removed c .run = some (id, x) := by
  unfold RuntimePc.inspectorPc at hpc
  split at hpc
  . next mode id' p hvisit =>
    split at hpc
    . next hid =>
      simp only [Option.some.injEq] at hpc
      subst hid hpc
      simp [removed, hvisit]
    . simp at hpc
  . simp at hpc

theorem isEmpty_of_getElem? {is : Inspector} {x : ExecutorId} {ex : Executor}
    (h : is.registry[x]? = some ex)
    : is.isEmpty = false := by
  have hmem : x ∈ is.registry := ExtTreeMap.mem_iff_isSome_getElem?.mpr (by simp [h])
  have hne : is.registry ≠ ∅ := by
    rintro heq
    simp [heq] at hmem
  simpa [Inspector.isEmpty, ExtTreeMap.isEmpty_eq_false_iff] using hne

theorem isEmpty_insert {is : Inspector} {x : ExecutorId} {ex : Executor}
    : ¬({ is with registry := is.registry.insert x ex }).isEmpty = true := by
  simp [Inspector.isEmpty]

theorem Inv.not_running {is : Inspector} {p : Option InspectorPc} {x : ExecutorId} (h : Inv is p)
    (hp : InspectorPc.occupied p = false)
    : is.status ≠ .running x := by
  intro hstatus
  simp [h.running x hstatus] at hp

-- A step of `Inspector::run` outside of the section that looks at the current executor.
theorem Inv.move {is : Inspector} {p p' : Option InspectorPc} (h : Inv is p)
    (hp : InspectorPc.beforeLookup p = false)
    : Inv is p' := by
  constructor
  . intro x hstatus
    exact absurd hstatus (h.not_running (InspectorPc.not_occupied hp))
  . intro hempty hpending
    simp [h.pending hempty hpending] at hp

theorem Inv.withQueue {is : Inspector} {p : Option InspectorPc} (h : Inv is p)
    (queue : FastPriorityQueue ExecutorPriority ExecutorId)
    : Inv { is with queue } p :=
  ⟨h.running, h.pending⟩

theorem Inv.of_removed {is : Inspector} {p p' : Option InspectorPc} {x : ExecutorId} (h : Inv is p)
    (hp : InspectorPc.occupied p = true → InspectorPc.occupied p' = true)
    (hmarked : (is.registry.erase x).isEmpty = true → is.status.isPending = false)
    : Inv { is with registry := is.registry.erase x } p' := by
  constructor
  . intro y hstatus
    exact hp (h.running y hstatus)
  . intro hempty hpending
    simp only [hmarked hempty] at hpending
    simp at hpending

theorem inv_step {c : Cpu} {a : CpuAction} {id : InspectorId} {is is' : Inspector}
    {p' : Option InspectorPc} (hinv : Inv is (c.pc.inspectorPc id)) (hget : c.rt.registry[id]? = some is)
    (hallowed : NoneMarked c a) (hstep : InspectorStep id is (c.pc.inspectorPc id) a is' p')
    : Inv is' p' := by
  generalize hp : c.pc.inspectorPc id = p at hinv hstep
  cases hstep with
  | same => exact hinv
  | executor _ _ _ | opRegister _ => exact ⟨hinv.running, fun hempty => absurd hempty isEmpty_insert⟩
  | opUnregister hmem =>
    exact hinv.of_removed (fun h => h) (hallowed _ rfl _ hget hmem)
  | opMarkPending hstatus =>
    constructor
    . simp
    . intro hempty _
      obtain hrunning | hpending := hstatus
      . exact InspectorPc.beforeLookup_of_occupied (hinv.running _ hrunning)
      . exact hinv.pending hempty (by simp [hpending, InspectorStatus.isPending])
  | enter => exact hinv.move rfl
  | dequeue _ | drained _ => exact (hinv.move rfl).withQueue _
  | setCurrent => exact ⟨fun _ _ => rfl, fun _ _ => rfl⟩
  | switchTo _ hex => exact ⟨fun _ _ => rfl, fun _ _ => rfl⟩
  | yield => exact ⟨fun _ _ => rfl, fun _ _ => rfl⟩
  | clearCurrent =>
    refine ⟨?_, fun _ _ => rfl⟩
    intro x
    cases hstatus : is.status <;> simp [Inspector.setCurrent, hstatus]
  | finished hex _ | unfinished hex _ =>
    refine ⟨fun x hstatus => absurd hstatus (hinv.not_running rfl), ?_⟩
    intro hempty
    simp [isEmpty_of_getElem? hex] at hempty
  | unregister hmem =>
    exact hinv.of_removed (by simp [InspectorPc.occupied]) (hallowed _ (removed_unregister hp) _ hget hmem)
  | enqueue hex => exact (hinv.move rfl).withQueue _
  | switchOut hstatus => exact hinv.move rfl
  | again hstatus => exact hinv.move rfl

theorem inv_new (id : InspectorId) (rootExecutor : Executor) (others : List Executor) (p : Option InspectorPc)
    : Inv (.new id rootExecutor others) p := by
  constructor <;> simp [Inspector.new_status, InspectorStatus.isPending]

theorem inv_of_run {c : Cpu} {as : List CpuAction} (hrun : Run Cpu.step NoneMarked .boot as c)
    : c.VisitsCurrent ∧ ∀ id is, c.rt.registry[id]? = some is → Inv is (c.pc.inspectorPc id) := by
  apply hrun.invariant
    (fun c => c.VisitsCurrent ∧ ∀ id is, c.rt.registry[id]? = some is → Inv is (c.pc.inspectorPc id))
  . exact ⟨Cpu.visitsCurrent_boot, by simp [Cpu.boot, Runtime.new]⟩
  . rintro c c' a ⟨hcurrent, hinv⟩ hallowed hstep
    refine ⟨hcurrent.step hstep, ?_⟩
    intro id is' hget'
    obtain ⟨_, _, _, rfl, rfl⟩ | ⟨is, hget, hinspector⟩ := Cpu.inspectorStep hcurrent hstep hget'
    . exact inv_new id _ _ _
    . exact inv_step (hinv id is hget) hget hallowed hinspector

theorem Inv.idle {is : Inspector} {p : Option InspectorPc} (h : Inv is p) (hempty : is.isEmpty = true)
    (hp : InspectorPc.beforeLookup p = false)
    : is.status = .idle := by
  cases hstatus : is.status with
  | idle => rfl
  | running x => exact absurd hstatus (h.not_running (InspectorPc.not_occupied hp))
  | pending x =>
    have := h.pending hempty (by simp [hstatus, InspectorStatus.isPending])
    simp [this] at hp

theorem exec_testEmpty {c : Cpu} {id : InspectorId} {is : Inspector} (hpc : c.pc = .testEmpty id)
    (hget : c.rt.registry[id]? = some is) (hempty : is.isEmpty = true) (hidle : is.status = .idle)
    : ∃ c', exec Cpu.step c [.run, .run] = .next c' ∧ id ∉ c'.rt.registry := by
  have hfirst : c.step .run = .next { c with pc := .unregister id } := by
    simp [Cpu.step, Cpu.runStep, hpc, Runtime.withInspector_of_some hget, hempty, hidle,
      Runtime.insert_self hget]
  have hmem : id ∈ c.rt.registry := ExtTreeMap.mem_iff_isSome_getElem?.mpr (by simp [hget])
  have hsecond : ({ c with pc := .unregister id } : Cpu).step .run =
      .next { c with rt := { c.rt with registry := c.rt.registry.erase id }, pc := .testTable } := by
    simp [Cpu.step, Cpu.runStep, Runtime.unregister, hmem]
  refine ⟨{ c with rt := { c.rt with registry := c.rt.registry.erase id }, pc := .testTable }, ?_, by simp⟩
  simp only [exec, hfirst, hsecond]

/--
A drained inspector can retire in every run in which no inspector loses its last executor while it is
marked as pending.
-/
theorem retires_of_noneMarked {c : Cpu} {as : List CpuAction} (hrun : Run Cpu.step NoneMarked .boot as c)
    : Retires c := by
  intro id is hget hempty
  have hinv := (inv_of_run hrun).2 id is hget
  constructor
  . intro mode hpc
    rw [hpc] at hinv
    exact hinv.idle hempty rfl
  . intro hpc
    rw [hpc] at hinv
    exact exec_testEmpty hpc hget hempty (hinv.idle hempty rfl)

instance (c : Cpu) (a : CpuAction) : Decidable (NoneMarked c a) :=
  inferInstanceAs (Decidable (∀ e ∈ removed c a, ∀ is ∈ c.rt.registry[e.1]?, e.2 ∈ is.registry →
    (is.registry.erase e.2).isEmpty = true → is.status.isPending = false))

def runTask (marks : List CpuAction) : List CpuAction :=
  -- An inspector with one executor and its root task. The task returns after `marks`, the executor
  -- finishes and yields.
  [.op (.register ⟨1⟩ (.new ⟨1⟩ ⟨0⟩ ⟨⟨1⟩, ⟨0⟩⟩) [])] ++ List.replicate 7 .run ++
    [.execute .launch, .execute .dequeue] ++ marks ++
    [.execute .ready, .execute .dequeue, .execute .finish, .yield] ++ List.replicate 4 .run

theorem retires_runTask
    : ∃ c, Run Cpu.step NoneMarked .boot (runTask [] ++ [.run, .run]) c ∧ c.pc = .testEmpty ⟨1⟩ ∧
        (∃ is, c.rt.registry[(⟨1⟩ : InspectorId)]? = some is ∧ is.isEmpty = true) ∧ Retires c := by
  obtain ⟨c, hrun, hc⟩ := exists_run_of_exec (checked Cpu.step NoneMarked) .boot (runTask [] ++ [.run, .run])
    (fun c => decide (c.pc = .testEmpty ⟨1⟩) && c.rt.registry[(⟨1⟩ : InspectorId)]?.any (·.isEmpty))
    (by decide +kernel)
  simp only [Bool.and_eq_true, decide_eq_true_eq, Option.any_eq_true] at hc
  exact ⟨c, hrun.of_checked, hc.1, hc.2, retires_of_noneMarked hrun.of_checked⟩

-- The executor marks its inspector as pending and then finishes without a yield in between.
theorem retires_runTask_false
    : ¬∀ as c, Run Cpu.step (fun _ _ => True) .boot as c → Retires c := by
  intro hall
  obtain ⟨c, hrun, hc⟩ := exists_run_of_exec Cpu.step .boot (runTask [.op (.markPending ⟨1⟩)])
    (fun c => decide (c.pc = .clearCurrent .queue ⟨1⟩) &&
      c.rt.registry[(⟨1⟩ : InspectorId)]?.any (fun is => is.isEmpty && is.status.isPending))
    (by decide +kernel)
  simp only [Bool.and_eq_true, decide_eq_true_eq, Option.any_eq_true] at hc
  obtain ⟨hpc, is, hget, hempty, hpending⟩ := hc
  have hidle := (hall _ c hrun ⟨1⟩ is hget hempty).1 .queue hpc
  simp [hidle, InspectorStatus.isPending] at hpending

end Retire

end Jrinx
