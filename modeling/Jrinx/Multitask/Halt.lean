import Jrinx.Multitask.WakeUp

/-!
This module is about the state in which `halt_if_all_finished_or_ipi` halts the machine. The decision
is taken from the status of the runtimes, so it is right as long as an endpoint stays one until the
next visit and no runtime with work is still unused.
-/

namespace Jrinx

open Std

namespace Halt

def Ending (c : Cpu) : Prop :=
  c.rt.status = .endpoint ∨ c.pc = .halt ∨ c.pc.locked = true

instance (c : Cpu) : Decidable (Ending c) := inferInstanceAs (Decidable (_ ∨ _))

/--
When an operation of a runtime is called: inspectors are registered before the loop has ended,
a table is revoked only if its inspectors are in the run queue, and no table is enacted or revoked
between the end of a run loop and the test that follows it.
-/
def InTime (c : Cpu) (op : RuntimeOp) : Prop :=
  match op with
  | .register _ _ _ => ¬ Ending c ∧ c.pc ≠ .leave .queue
  | .enactSchedTable _ => c.pc ≠ .leave .table
  | .revokeSchedTable => TableLoss.RevokesQueued c (.op .revokeSchedTable) ∧ c.pc ≠ .leave .queue
  | _ => True

def OpInTime (c : Cpu) (a : CpuAction) : Prop := ∀ op, a = .op op → InTime c op

structure Inv (c : Cpu) : Prop where
  kept : TableLoss.NoInspectorLost c
  leaveTable : c.pc = .leave .table → c.rt.schedTable = none
  leaveQueue : c.pc = .leave .queue → c.rt.schedTable = none → c.rt.queue = []
  ending : Ending c → ∀ id, id ∉ c.rt.registry

theorem inv_boot : Inv Cpu.boot := by
  constructor
  . simp [TableLoss.NoInspectorLost, Cpu.boot, Runtime.new]
  . simp [Cpu.boot]
  . simp [Cpu.boot]
  . simp [Cpu.boot, Runtime.new]

theorem OpInTime.revokesQueued {c : Cpu} {a : CpuAction} (h : OpInTime c a)
    : TableLoss.RevokesQueued c a := by
  unfold TableLoss.RevokesQueued
  split
  . exact (h _ rfl).1
  . trivial

theorem Inv.leaveTable_step {c c' : Cpu} {a : CpuAction} (hinv : Inv c) (hallowed : OpInTime c a)
    (hstep : c.step a = .next c') (hpc' : c'.pc = .leave .table)
    : c'.rt.schedTable = none := by
  cases Cpu.loopStep hstep with
  | inner _ hrt hpc =>
    rw [hrt.schedTable]
    exact hinv.leaveTable (by rw [← hpc, hpc'])
  | jump hrt hjump =>
    rw [hpc'] at hjump
    rw [hrt]
    generalize c.pc = pc at hjump
    cases hjump with
    | revoked hnone => exact hnone
  | opRegister _ hrt hpc | opUnregister _ hrt hpc =>
    rw [hrt]
    exact hinv.leaveTable (by rw [← hpc, hpc'])
  | opEnact _ _ hpc => exact absurd (hpc ▸ hpc') (hallowed _ rfl)
  | opRevoke _ hrt _ => rw [hrt]
  | _ => simp_all

theorem Inv.leaveQueue_step {c c' : Cpu} {a : CpuAction} (hinv : Inv c) (hallowed : OpInTime c a)
    (hstep : c.step a = .next c') (hpc' : c'.pc = .leave .queue) (hnone : c'.rt.schedTable = none)
    : c'.rt.queue = [] := by
  cases Cpu.loopStep hstep with
  | inner _ hrt hpc =>
    rw [hrt.queue]
    rw [hrt.schedTable] at hnone
    exact hinv.leaveQueue (by rw [← hpc, hpc']) hnone
  | jump hrt hjump =>
    rw [hpc'] at hjump
    rw [hrt] at hnone ⊢
    generalize c.pc = pc at hjump
    cases hjump with
    | enacted hsome => simp [hnone] at hsome
    | drained hqueue => exact hqueue
  | opRegister _ _ hpc => exact absurd (hpc ▸ hpc') (hallowed _ rfl).2
  | opUnregister _ hrt hpc =>
    rw [hrt] at hnone ⊢
    exact hinv.leaveQueue (by rw [← hpc, hpc']) hnone
  | opEnact _ hrt _ => simp [hrt] at hnone
  | opRevoke _ _ hpc => exact absurd (hpc ▸ hpc') (hallowed _ rfl).2
  | _ => simp_all

theorem Inv.not_mem_of_jump {c : Cpu} {pc' : RuntimePc} (hinv : Inv c) (hjump : Jump c.rt c.pc pc')
    (hending : c.rt.status = .endpoint ∨ pc' = .halt ∨ pc'.locked = true)
    : ∀ id, id ∉ c.rt.registry := by
  rcases hending with hstatus | hpc' | hlocked
  . exact hinv.ending (.inl hstatus)
  . subst hpc'
    cases hpc : c.pc with
    | leave mode =>
      rw [hpc] at hjump
      cases hjump with
      | haltQueue hnone =>
        intro id hid
        rcases hinv.kept id hid with hqueued | ⟨_, hsome, _⟩
        . simp [hinv.leaveQueue hpc hnone, hpc, RuntimePc.held] at hqueued
        . simp [hnone] at hsome
      | haltTable hsome => simp [hinv.leaveTable hpc] at hsome
    | _ =>
      rw [hpc] at hjump
      cases hjump
  . apply hinv.ending
    right
    right
    generalize c.pc = pc at hjump ⊢
    cases hjump <;> simp_all [RuntimePc.locked]

theorem Inv.ending_step {c c' : Cpu} {a : CpuAction} (hinv : Inv c) (hallowed : OpInTime c a)
    (hstep : c.step a = .next c') (hending : Ending c') (id : InspectorId)
    : id ∉ c'.rt.registry := by
  have hsame (hstatus : c'.rt.status = c.rt.status) (hpc : c'.pc = c.pc) : Ending c := by
    simpa only [Ending, hstatus, hpc] using hending
  -- A step to a place inside of the loop only ends there if the status says so.
  have hinside (hstatus : c'.rt.status = c.rt.status) (hhalt : c'.pc ≠ .halt)
      (hlocked : c'.pc.locked = false) : Ending c := by
    simp only [Ending, hhalt, hlocked, Bool.false_eq_true, or_false] at hending
    rw [hstatus] at hending
    exact .inl hending
  cases Cpu.loopStep hstep with
  | inner _ hrt hpc =>
    rw [hrt.registry]
    exact hinv.ending (hsame hrt.status hpc) id
  | visit hrt _ hpc' | visitEnd hrt _ hpc' =>
    rw [hrt.registry]
    exact hinv.ending (hinside hrt.status (by simp [hpc']) (by simp [hpc', RuntimePc.locked])) id
  | jump hrt hjump =>
    rw [hrt]
    exact hinv.not_mem_of_jump hjump (by simpa only [Ending, hrt] using hending) id
  | wake hrt _ hpc' | popFront _ hrt _ hpc' | pushBack _ hrt _ hpc' | tableStart _ hrt _ hpc' =>
    have hending := hinside (by rw [hrt]) (by simp [hpc']) (by simp [hpc', RuntimePc.locked])
    rw [hrt]
    exact hinv.ending hending id
  | tableNext _ _ hrt _ hpc' =>
    have hending := hinside (by rw [hrt]) (by simp [hpc']) (by simp [hpc', RuntimePc.locked])
    rw [hrt]
    exact hinv.ending hending id
  | unregister _ hrt _ hpc' =>
    have hending := hinside (by rw [hrt]) (by simp [hpc']) (by simp [hpc', RuntimePc.locked])
    have := hinv.ending hending id
    rw [hrt]
    simp [this]
  | stayAwake hrt hpc _ =>
    rw [hrt]
    exact hinv.ending (.inr (.inl hpc)) id
  | endpoint hrt hpc _ =>
    rw [hrt]
    exact hinv.ending (.inr (.inr (by rw [hpc]; rfl))) id
  | enter hrt _ hpc' | exitTable hrt _ hpc' | exitQueue hrt _ hpc' =>
    simp [Ending, hrt, hpc', RuntimePc.locked] at hending
  | opRegister _ hrt hpc => exact absurd (hsame (by rw [hrt]) hpc) (hallowed _ rfl).1
  | opUnregister _ hrt hpc =>
    have := hinv.ending (hsame (by rw [hrt]) hpc) id
    rw [hrt]
    simp [this]
  | opEnact _ hrt hpc | opRevoke _ hrt hpc =>
    have := hinv.ending (hsame (by rw [hrt]) hpc) id
    rw [hrt]
    exact this

theorem Inv.step {c c' : Cpu} {a : CpuAction} (hinv : Inv c) (hallowed : OpInTime c a)
    (hstep : c.step a = .next c')
    : Inv c' := by
  constructor
  . exact hinv.kept.step hallowed.revokesQueued hstep
  . exact hinv.leaveTable_step hallowed hstep
  . exact hinv.leaveQueue_step hallowed hstep
  . exact hinv.ending_step hallowed hstep

variable {n : Nat} {m m' : Machine n} {A : MachineAction n}

/--
The operations are called in time, and when the machine is halted, there is no other CPU that has booted
but is not in use yet.
-/
def Allowed (m : Machine n) (A : MachineAction n) : Prop :=
  match A with
  | .op _ t op => InTime (m.cpus t) op
  | .check i => m.AllEndpoint → ∀ j, j ≠ i → m.booted j = true → m.status j ≠ .unused
  | _ => True

def UnbootedEmpty (m : Machine n) : Prop :=
  ∀ j, m.booted j = false → m.cpus j = { Cpu.boot with softPending := (m.cpus j).softPending }

theorem UnbootedEmpty.step (hinv : UnbootedEmpty m) (hstep : m.step A = .next m')
    : UnbootedEmpty m' := by
  intro j hbooted'
  rcases Machine.step_booted hstep j with ⟨hbooted, hnot⟩ | hbooted
  . rw [hbooted] at hbooted'
    have hboot := hinv j hbooted'
    rcases Machine.step_cpus hstep j with hsame | ⟨a, hacts, hcpu⟩
    . rwa [hsame]
    . cases hacts with
      | boot => exact absurd rfl (hnot _ _)
      | cpu h | stayAwake h => simp [hbooted'] at h
      | receive =>
        simp only [Cpu.step, Outcome.next.injEq] at hcpu
        rw [← hcpu, hboot]
      | op h hused =>
        rcases hused with rfl | hused
        . simp [hbooted'] at h
        . rw [Machine.status, hboot] at hused
          exact absurd rfl hused
  . simp [hbooted] at hbooted'

theorem Allowed.opInTime {j : Fin n} {a : CpuAction} (hallowed : Allowed m A)
    (hunbooted : UnbootedEmpty m) (hacts : m.Acts A j a)
    : OpInTime (m.cpus j) a := by
  rintro op rfl
  cases hacts with
  | boot hnew =>
    rw [hunbooted j hnew]
    simp [InTime, Ending, Cpu.boot, Runtime.new, RuntimePc.locked]
  | cpu _ _ hop _ => exact absurd rfl (hop op)
  | op => exact hallowed

/--
No runtime has an inspector with executors left, and no CPU runs an inspector.
-/
structure WorkDone (m : Machine n) : Prop where
  empty : ∀ (j : Fin n) (id : InspectorId) (is : Inspector), (m.cpus j).rt.registry[id]? = some is →
    is.isEmpty = true
  outside : ∀ j mode id p, (m.cpus j).pc ≠ .visit mode id p

structure MachineInv (m : Machine n) : Prop where
  cpus : ∀ j, Inv (m.cpus j)
  current : ∀ j, (m.cpus j).VisitsCurrent
  unbooted : UnbootedEmpty m
  done : m.halted = true → WorkDone m

theorem machineInv_init (n : Nat) : MachineInv (Machine.init n) := by
  constructor
  . exact fun _ => inv_boot
  . exact fun _ => Cpu.visitsCurrent_boot
  . intro j _
    rfl
  . simp [Machine.init]

theorem MachineInv.workDone {i : Fin n} (hinv : MachineInv m) (hallowed : Allowed m (.check i))
    (hpc : (m.cpus i).pc = .halt) (hall : n = 1 ∨ m.AllEndpoint)
    : WorkDone m := by
  have hcases : ∀ j, Ending (m.cpus j) ∨ m.booted j = false := by
    intro j
    by_cases hji : j = i
    . subst hji
      exact .inl (.inr (.inl hpc))
    . rcases hall with rfl | hall
      . exact absurd (Subsingleton.elim j i) hji
      . cases hbooted : m.booted j with
        | true => exact .inl (.inl (hall j (hallowed hall j hji hbooted)))
        | false => exact .inr rfl
  constructor
  . intro j id is hget
    have hmem : id ∈ (m.cpus j).rt.registry :=
      ExtTreeMap.mem_iff_isSome_getElem?.mpr (by simp [hget])
    rcases hcases j with hending | hbooted
    . exact absurd hmem ((hinv.cpus j).ending hending id)
    . rw [hinv.unbooted j hbooted] at hmem
      simp [Cpu.boot, Runtime.new] at hmem
  . intro j mode id p hvisit
    have hstatus := hinv.current j mode id p hvisit
    rcases hcases j with hending | hbooted
    . simp [Ending, hstatus, hvisit, RuntimePc.locked] at hending
    . rw [hinv.unbooted j hbooted] at hvisit
      simp [Cpu.boot] at hvisit

theorem MachineInv.step (hinv : MachineInv m) (hallowed : Allowed m A) (hstep : m.step A = .next m')
    : MachineInv m' := by
  constructor
  . apply Machine.forall_cpus_step Inv OpInTime _ _ hinv.cpus hstep
    . exact fun c c' a hc hop hcpu => hc.step hop hcpu
    . exact fun j a hacts => hallowed.opInTime hinv.unbooted hacts
  . apply Machine.forall_cpus_step Cpu.VisitsCurrent (fun _ _ => True) _ _ hinv.current hstep
    . exact fun c c' a hc _ hcpu => hc.step hcpu
    . exact fun _ _ _ => trivial
  . exact hinv.unbooted.step hstep
  . intro hhalted
    obtain ⟨i, rfl, _, hpc, hall, hcpus, _⟩ := Machine.step_halted hstep hhalted
    have hdone := hinv.workDone hallowed hpc hall
    constructor
    . rw [hcpus]
      exact hdone.empty
    . rw [hcpus]
      exact hdone.outside

/--
The machine is halted when all the work is done, if the operations are called in time and no CPU with
work is still unused.
-/
theorem workDone_of_halted {as : List (MachineAction n)}
    (hrun : Run Machine.step Allowed (Machine.init n) as m) (hhalted : m.halted = true)
    : WorkDone m := by
  have hinv : MachineInv m := by
    apply hrun.invariant MachineInv (machineInv_init n)
    intro s s' a hs hallowed hstep
    exact hs.step hallowed hstep
  exact hinv.done hhalted

instance (c : Cpu) (op : RuntimeOp) : Decidable (InTime c op) := by
  induction op using RuntimeOp.casesOn with
  | register _ _ _ => exact inferInstanceAs (Decidable (¬ Ending c ∧ c.pc ≠ .leave .queue))
  | enactSchedTable _ => exact inferInstanceAs (Decidable (c.pc ≠ .leave .table))
  | revokeSchedTable =>
    exact inferInstanceAs
      (Decidable (TableLoss.RevokesQueued c (.op .revokeSchedTable) ∧ c.pc ≠ .leave .queue))
  | _ => exact isTrue trivial

instance (m : Machine n) (A : MachineAction n) : Decidable (Allowed m A) := by
  induction A using MachineAction.casesOn with
  | op _ t op => exact inferInstanceAs (Decidable (InTime (m.cpus t) op))
  | check i =>
    exact inferInstanceAs
      (Decidable (m.AllEndpoint → ∀ j, j ≠ i → m.booted j = true → m.status j ≠ .unused))
  | _ => exact isTrue trivial

def finishedBoth : List (MachineAction 2) :=
  -- Both CPUs finish, and the one that is woken up halts the machine.
  WakeUp.lastEndpoint ++ [.cpu WakeUp.first .run, .cpu WakeUp.first .softInt] ++
    List.replicate 5 (.cpu WakeUp.first .run) ++ [.check WakeUp.first]

theorem workDone_finishedBoth
    : ∃ m, Run Machine.step Allowed (Machine.init 2) finishedBoth m ∧ m.halted = true ∧ WorkDone m := by
  obtain ⟨m, hrun, hhalted⟩ := exists_run_of_exec (checked Machine.step Allowed) (Machine.init 2)
    finishedBoth Machine.halted (by decide +kernel)
  exact ⟨m, hrun.of_checked, hhalted, workDone_of_halted hrun.of_checked hhalted⟩

def wokenAlone : List (MachineAction 2) :=
  -- The first CPU finishes and wakes up again by itself, while the second one has booted but is not
  -- in use yet.
  [Machine.bootRoot WakeUp.first, Machine.bootRoot WakeUp.second] ++ Machine.finishRoot WakeUp.first ++
    [.check WakeUp.first] ++ List.replicate 4 (.cpu WakeUp.first .run) ++ [.cpu WakeUp.first .wakeUp] ++
    List.replicate 5 (.cpu WakeUp.first .run) ++ [.check WakeUp.first]

theorem workDone_wokenAlone_false
    : ¬ ∀ as m, Run Machine.step (fun _ _ => True) (Machine.init 2) as m → m.halted = true →
        WorkDone m := by
  intro hall
  obtain ⟨m, hrun, hm⟩ := exists_run_of_exec Machine.step (Machine.init 2) wokenAlone
    (fun m => m.halted && ((m.cpus 1).rt.registry[(⟨1⟩ : InspectorId)]?.any fun is => !is.isEmpty))
    (by decide +kernel)
  simp only [Bool.and_eq_true, Option.any_eq_true, Bool.not_eq_true'] at hm
  obtain ⟨hhalted, is, hget, hbusy⟩ := hm
  have := (hall _ m hrun hhalted).empty 1 _ is hget
  simp [hbusy] at this

end Halt

end Jrinx
