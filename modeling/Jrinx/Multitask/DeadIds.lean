import Jrinx.Multitask.Dispatch

/-!
This module is about identifiers in the queues of a runtime and of its inspectors that are not in the
registry any more. `unregister` leaves them in the queues, so it must only be called by the loops, for
something that they have taken out of the queue before.
-/

namespace Jrinx

open Std

namespace DeadIds

def NoTable (_ : Cpu) (a : CpuAction) : Prop :=
  match a with
  | .op (.enactSchedTable _) => False
  | _ => True

/--
No schedule table is enacted and the calls of `unregister` from outside of the loops all fail.
-/
def Allowed (c : Cpu) (a : CpuAction) : Prop := Dispatch.NoRemoval c a ∧ NoTable c a

theorem Allowed.onlyRegister {c : Cpu} {a : CpuAction} (h : Allowed c a)
    : RoundRobin.OnlyRegister c a := by
  unfold RoundRobin.OnlyRegister
  split
  . exact absurd h.2 id
  . exact h.1
  . trivial

/--
The queues name registered inspectors and executors only, and the loops do not panic.
-/
structure Live (c : Cpu) : Prop where
  inspectors : ∀ id ∈ c.rt.queue, id ∈ c.rt.registry
  executors : ∀ (id : InspectorId) (is : Inspector), c.rt.registry[id]? = some is →
    ∀ p : FastPriority, ∀ e ∈ is.queue.items p, e.2 ∈ is.registry
  run_no_panic : c.step .run ≠ .panic
  yield_no_panic : c.step .yield ≠ .panic

theorem exists_log {allowed : Cpu → CpuAction → Prop} {c c' : Cpu} {as : List CpuAction}
    (hrun : Run Cpu.step allowed c as c') (log : InspectorId → Dispatch.Log)
    : ∃ log', Run Dispatch.State.step (fun s => allowed s.cpu) ⟨c, log⟩ as ⟨c', log'⟩ := by
  induction hrun generalizing log with
  | nil => exact ⟨log, .nil _⟩
  | @cons s s' s'' a as hallowed hstep _ ih =>
    obtain ⟨log', hrest⟩ := ih (Dispatch.State.recordAll ⟨s, log⟩ a)
    refine ⟨log', .cons hallowed ?_ hrest⟩
    simp [Dispatch.State.step, hstep]

theorem executors_of_inv {s : Dispatch.State} (hinv : s.Inv)
    : ∀ (id : InspectorId) (is : Inspector), s.cpu.rt.registry[id]? = some is →
        ∀ p : FastPriority, ∀ e ∈ is.queue.items p, e.2 ∈ is.registry := by
  intro id is hget p e he
  obtain ⟨l, hqueued, _⟩ := (hinv.inspectors id is hget).queued
  rw [FastPriorityQueue.items, hqueued.refines.queues_eq] at he
  rw [hqueued.mem_iff]
  exact List.mem_append_left _ (List.mem_map_of_mem (List.mem_of_mem_filter he))

def OutsideTable : RuntimePc → Prop
  | .tableStart | .tableNext | .setCurrent .table _ | .visit .table _ _ | .clearCurrent .table _ => False
  | _ => True

theorem OutsideTable.step {c c' : Cpu} {a : CpuAction} (hinv : OutsideTable c.pc)
    (hnone : c.rt.schedTable = none) (hstep : c.step a = .next c')
    : OutsideTable c'.pc := by
  cases Cpu.loopStep hstep with
  | inner _ _ hpc | opRegister _ _ hpc | opUnregister _ _ hpc | opEnact _ _ hpc | opRevoke _ _ hpc =>
    rwa [hpc]
  | @visit _ _ mode _ _ _ _ hpc hpc' | @visitEnd _ mode _ _ _ hpc hpc' | @enter _ mode _ _ hpc hpc' =>
    rw [hpc] at hinv
    rw [hpc']
    cases mode <;> exact hinv
  | jump _ hjump =>
    generalize c.pc = pc at hinv hjump
    generalize c'.pc = pc' at hjump ⊢
    cases hjump with
    | tableStart hsome => simp [hnone] at hsome
    | _ => trivial
  | tableStart htable | tableNext htable => simp [hnone] at htable
  | exitTable _ hpc _ => simp [OutsideTable, hpc] at hinv
  | wake _ _ hpc' | stayAwake _ _ hpc' | popFront _ _ _ hpc' | exitQueue _ _ hpc' | unregister _ _ _ hpc'
  | pushBack _ _ _ hpc' | endpoint _ _ hpc' =>
    rw [hpc']
    trivial

theorem run_no_panic_of_inv {s : Dispatch.State} (hinv : s.Inv) (hrobin : RoundRobin.Inv s.cpu)
    (hpc : OutsideTable s.cpu.pc)
    : s.cpu.step .run ≠ .panic := by
  cases hat : s.cpu.pc with
  | visit mode id p =>
    have hmem : id ∈ s.cpu.rt.registry := by
      rw [hat] at hpc
      cases mode with
      | table => exact hpc.elim
      | queue =>
        rw [hrobin.mem_iff, hat]
        simp [RuntimePc.held]
    obtain ⟨is, hget⟩ := SerialId.mem_iff_exists.mp hmem
    exact ((hinv.strictPriority hget).no_panic (by simp [hat, RuntimePc.inspectorPc])).1
  | testEmpty id => exact hrobin.no_panic (.inl hat)
  | unregister id => exact hrobin.no_panic (.inr (.inl hat))
  | pushBack id => exact hrobin.no_panic (.inr (.inr hat))
  | tableNext => simp [OutsideTable, hat] at hpc
  | popFront =>
    simp only [Cpu.step, Cpu.runStep, hat]
    split <;> simp
  | clearCurrent mode id | leave mode => cases mode <;> simp [Cpu.step, Cpu.runStep, hat]
  | _ => simp [Cpu.step, Cpu.runStep, hat]

theorem yield_no_panic_of_inv {s : Dispatch.State} (hinv : s.Inv) : s.cpu.step .yield ≠ .panic := by
  cases hat : s.cpu.pc with
  | visit mode id p =>
    cases p with
    | executing x y =>
      have hmem := (hinv.registered _ _ _ hat).resolve_right (by simp)
      obtain ⟨is, hget⟩ := SerialId.mem_iff_exists.mp hmem
      exact ((hinv.strictPriority hget).no_panic (by simp [hat, RuntimePc.inspectorPc])).2
    | _ => simp [Cpu.step, Cpu.yield, hat]
  | _ => simp [Cpu.step, Cpu.yield, hat]

/--
As long as `unregister` is only called by the loops, no queue names something that is gone.
-/
theorem live_of_run {c : Cpu} {as : List CpuAction} (hrun : Run Cpu.step Allowed Cpu.boot as c)
    : Live c := by
  obtain ⟨log, hlog⟩ := exists_log hrun Dispatch.State.boot.log
  have hinv := Dispatch.State.inv_of_run (hlog.mono fun _ _ h => h.1)
  have hboth : RoundRobin.Inv c ∧ OutsideTable c.pc := by
    apply hrun.invariant (fun c => RoundRobin.Inv c ∧ OutsideTable c.pc)
    . exact ⟨RoundRobin.inv_boot, trivial⟩
    . intro s s' a hs hallowed hstep
      exact ⟨hs.1.step hallowed.onlyRegister hstep, hs.2.step hs.1.schedTable hstep⟩
  constructor
  . intro id hid
    exact hinv.queue.registered id (by simp [hid])
  . exact executors_of_inv hinv
  . exact run_no_panic_of_inv hinv hboth.1 hboth.2
  . exact yield_no_panic_of_inv hinv

instance (c : Cpu) (a : CpuAction) : Decidable (NoTable c a) := by
  induction a using CpuAction.casesOn with
  | op op =>
    induction op using RuntimeOp.casesOn with
    | enactSchedTable table => exact isFalse id
    | _ => exact isTrue trivial
  | _ => exact isTrue trivial

instance (c : Cpu) (a : CpuAction) : Decidable (Allowed c a) :=
  inferInstanceAs (Decidable (Dispatch.NoRemoval c a ∧ NoTable c a))

def failedUnregister : List CpuAction :=
  -- An inspector is registered, unregistering another one fails, and the visit of the first one
  -- begins.
  [.op (.register ⟨1⟩ (.new ⟨1⟩ ⟨0⟩ ⟨⟨1⟩, ⟨0⟩⟩) []), .op (.unregister ⟨2⟩), .run, .run, .run, .run]

theorem live_failedUnregister
    : ∃ c, Run Cpu.step Allowed Cpu.boot failedUnregister c ∧ c.pc = .visit .queue ⟨1⟩ .dequeue ∧
        Live c := by
  obtain ⟨c, hrun, hpc⟩ := exists_run_of_exec (checked Cpu.step Allowed) Cpu.boot failedUnregister
    (fun c => decide (c.pc = .visit .queue ⟨1⟩ .dequeue)) (by decide +kernel)
  rw [decide_eq_true_eq] at hpc
  exact ⟨c, hrun.of_checked, hpc, live_of_run hrun.of_checked⟩

def unregisteredInQueue : List CpuAction :=
  -- An inspector is registered and unregistered from outside, then the loop visits it.
  [.op (.register ⟨1⟩ (.new ⟨1⟩ ⟨0⟩ ⟨⟨1⟩, ⟨0⟩⟩) []), .op (.unregister ⟨1⟩), .run, .run, .run, .run]

theorem live_unregisteredInQueue_false : ¬ ∀ as c, Run Cpu.step NoTable Cpu.boot as c → Live c := by
  intro hall
  obtain ⟨c, hrun, hpanic⟩ := exists_run_of_exec (checked Cpu.step NoTable) Cpu.boot unregisteredInQueue
    (fun c => match c.step .run with | .panic => true | _ => false) (by decide +kernel)
  have hlive := hall _ c hrun.of_checked
  split at hpanic
  . next h => exact hlive.run_no_panic h
  . simp at hpanic

end DeadIds

end Jrinx
