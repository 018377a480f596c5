import Jrinx.Multitask.InspectorStep
import Jrinx.Multitask.TableLoss

/-!
This module contains the CPUs of a machine, each of them with a runtime of its own: how they boot, what
they do to the runtimes of each other through `with_spec_cpu`, and `halt_if_all_finished_or_ipi`, which
looks at the status of all of them under a common lock.
-/

namespace Jrinx

open Std

structure Machine (n : Nat) where
  cpus : Fin n → Cpu
  booted : Fin n → Bool
  halted : Bool

inductive MachineAction (n : Nat) where
  -- `runtime::init` with its root inspector, up to the call of `Runtime::start`.
  | boot (i : Fin n) (id : InspectorId) (rootExecutor : Executor)
  | cpu (i : Fin n) (a : CpuAction)
  -- The code that runs on `i` calls an operation of the runtime of `t`.
  | op (i t : Fin n) (op : RuntimeOp)
  -- `i` locks the group in `halt_if_all_finished_or_ipi` and looks at the status of every runtime.
  | check (i : Fin n)

def RuntimePc.locked : RuntimePc → Bool
  | .sendIpi _ | .setEndpoint _ => true
  | _ => false

def Cpu.locksStatus (c : Cpu) (a : CpuAction) : Bool :=
  match a, c.pc with
  | .run, .setCurrent _ _ | .run, .clearCurrent _ _ | .run, .visit _ _ _ => true
  | .yield, _ => true
  | _, _ => false

namespace Machine

variable {n : Nat}

def init (n : Nat) : Machine n where
  cpus _ := .boot
  booted _ := false
  halted := false

def status (m : Machine n) (i : Fin n) : RuntimeStatus := (m.cpus i).rt.status

def setCpu (m : Machine n) (i : Fin n) (c : Cpu) : Machine n :=
  { m with cpus := fun j => if j = i then c else m.cpus j }

def Free (m : Machine n) (i : Fin n) : Prop :=
  ∀ j, j ≠ i → (m.cpus j).pc.locked = false

def AllEndpoint (m : Machine n) : Prop :=
  ∀ j, m.status j ≠ .unused → m.status j = .endpoint

instance (m : Machine n) (i : Fin n) : Decidable (m.Free i) :=
  inferInstanceAs (Decidable (∀ _, _ → _))

instance (m : Machine n) : Decidable m.AllEndpoint :=
  inferInstanceAs (Decidable (∀ _, _ → _))

def firstEndpoint (m : Machine n) : Option (Fin n) :=
  (List.finRange n).find? (fun j => m.status j = .endpoint)

def deliver (m : Machine n) (i : Fin n) (target : Option Nat) : Machine n :=
  -- The software interrupt of the CPU that `i` has found, unless it is `i` itself.
  {
    m with
    cpus := fun j =>
      if target = some j.val ∧ j ≠ i then { m.cpus j with softPending := true } else m.cpus j
  }

def stepCpu (m : Machine n) (i : Fin n) (a : CpuAction) : Outcome (Machine n) :=
  match a, (m.cpus i).pc with
  | .op _, _ | .stayAwake _, _ | .receiveIpi, _ => .disabled
  | .run, .sendIpi target =>
    ((m.cpus i).step .run).map fun c => (m.deliver i target).setCpu i c
  | _, _ => ((m.cpus i).step a).map fun c => m.setCpu i c

def step (m : Machine n) (a : MachineAction n) : Outcome (Machine n) :=
  if m.halted then
    .disabled
  else
    match a with
    | .boot i id rootExecutor =>
      if m.booted i then
        .disabled
      else
        ((m.cpus i).step (.op (.register id rootExecutor []))).map fun c =>
          { m.setCpu i c with booted := fun j => if j = i then true else m.booted j }
    | .cpu i a =>
      if m.booted i ∧ ((m.cpus i).locksStatus a → m.Free i) then m.stepCpu i a else .disabled
    | .op i t op =>
      if m.booted i then
        -- The lock of the status is released before the operation, but no runtime gets unused again.
        if i ≠ t ∧ m.status t = .unused then
          .next m
        else
          ((m.cpus t).step (.op op)).map fun c => m.setCpu t c
      else
        .disabled
    | .check i =>
      if m.booted i ∧ (m.cpus i).pc = .halt ∧ m.Free i then
        if n = 1 ∨ m.AllEndpoint then
          .next { m with halted := true }
        else
          ((m.cpus i).step (.stayAwake (m.firstEndpoint.map Fin.val))).map fun c => m.setCpu i c
      else
        .disabled

inductive Acts (m : Machine n) : MachineAction n → Fin n → CpuAction → Prop where
  | boot {i : Fin n} {id : InspectorId} {rootExecutor : Executor} (hnew : m.booted i = false)
      : Acts m (.boot i id rootExecutor) i (.op (.register id rootExecutor []))
  | cpu {i : Fin n} {a : CpuAction} (hbooted : m.booted i = true)
      (hfree : (m.cpus i).locksStatus a = true → m.Free i) (hop : ∀ op, a ≠ .op op)
      (hstay : ∀ target, a ≠ .stayAwake target) : Acts m (.cpu i a) i a
  | receive {i t : Fin n} (hpc : (m.cpus i).pc = .sendIpi (some t.val)) (hne : t ≠ i)
      : Acts m (.cpu i .run) t .receiveIpi
  | op {i t : Fin n} {op : RuntimeOp} (hbooted : m.booted i = true)
      (hused : i = t ∨ m.status t ≠ .unused) : Acts m (.op i t op) t (.op op)
  | stayAwake {i : Fin n} (hbooted : m.booted i = true) (hpc : (m.cpus i).pc = .halt)
      (hfree : m.Free i) (hnot : ¬ m.AllEndpoint)
      : Acts m (.check i) i (.stayAwake (m.firstEndpoint.map Fin.val))

inductive Step (m : Machine n) : MachineAction n → Machine n → Prop where
  | boot {i : Fin n} {id : InspectorId} {rootExecutor : Executor} {c : Cpu}
      (hnew : m.booted i = false)
      (hcpu : (m.cpus i).step (.op (.register id rootExecutor [])) = .next c)
      : Step m (.boot i id rootExecutor)
          { m.setCpu i c with booted := fun j => if j = i then true else m.booted j }
  | sendIpi {i : Fin n} {target : Option Nat} {c : Cpu} (hbooted : m.booted i = true)
      (hfree : (m.cpus i).locksStatus .run = true → m.Free i)
      (hpc : (m.cpus i).pc = .sendIpi target) (hcpu : (m.cpus i).step .run = .next c)
      : Step m (.cpu i .run) ((m.deliver i target).setCpu i c)
  | cpu {i : Fin n} {a : CpuAction} {c : Cpu} (hbooted : m.booted i = true)
      (hfree : (m.cpus i).locksStatus a = true → m.Free i) (hop : ∀ op, a ≠ .op op)
      (hstay : ∀ target, a ≠ .stayAwake target)
      (hpc : ∀ target, a = .run → (m.cpus i).pc ≠ .sendIpi target)
      (hcpu : (m.cpus i).step a = .next c)
      : Step m (.cpu i a) (m.setCpu i c)
  | ignored {i t : Fin n} {op : RuntimeOp} (hbooted : m.booted i = true)
      (hunused : m.status t = .unused) : Step m (.op i t op) m
  | op {i t : Fin n} {op : RuntimeOp} {c : Cpu} (hbooted : m.booted i = true)
      (hused : i = t ∨ m.status t ≠ .unused) (hcpu : (m.cpus t).step (.op op) = .next c)
      : Step m (.op i t op) (m.setCpu t c)
  | halt {i : Fin n} (hbooted : m.booted i = true) (hpc : (m.cpus i).pc = .halt) (hfree : m.Free i)
      (hall : n = 1 ∨ m.AllEndpoint) : Step m (.check i) { m with halted := true }
  | stayAwake {i : Fin n} {c : Cpu} (hbooted : m.booted i = true) (hpc : (m.cpus i).pc = .halt)
      (hfree : m.Free i) (hnot : ¬ m.AllEndpoint)
      (hcpu : (m.cpus i).step (.stayAwake (m.firstEndpoint.map Fin.val)) = .next c)
      : Step m (.check i) (m.setCpu i c)

theorem stepCpu_cases {m m' : Machine n} {i : Fin n} {a : CpuAction} (hbooted : m.booted i = true)
    (hfree : (m.cpus i).locksStatus a = true → m.Free i) (h : m.stepCpu i a = .next m')
    : m.Step (.cpu i a) m' := by
  unfold stepCpu at h
  split at h
  . simp at h
  . simp at h
  . simp at h
  . next target hpc =>
    obtain ⟨c, hcpu, rfl⟩ := Outcome.map_eq_next h
    exact .sendIpi hbooted hfree hpc hcpu
  . next hop hstay _ hpc =>
    obtain ⟨c, hcpu, rfl⟩ := Outcome.map_eq_next h
    exact .cpu hbooted hfree hop hstay hpc hcpu

theorem step_not_halted {m m' : Machine n} {A : MachineAction n} (h : m.step A = .next m')
    : m.halted = false := by
  unfold step at h
  split at h
  . simp at h
  . next hhalted => simpa using hhalted

theorem step_cases {m m' : Machine n} {A : MachineAction n} (h : m.step A = .next m')
    : m.Step A m' := by
  simp only [step, step_not_halted h, Bool.false_eq_true, if_false] at h
  cases A with
  | boot i id rootExecutor =>
    simp only at h
    split at h
    . simp at h
    . next hnew =>
      obtain ⟨c, hcpu, rfl⟩ := Outcome.map_eq_next h
      exact .boot (by simpa using hnew) hcpu
  | cpu i a =>
    simp only at h
    split at h
    . next hand => exact stepCpu_cases hand.1 hand.2 h
    . simp at h
  | op i t op =>
    simp only at h
    split at h
    . next hbooted =>
      split at h
      . next hunused =>
        simp only [Outcome.next.injEq] at h
        subst h
        exact .ignored hbooted hunused.2
      . next hused =>
        obtain ⟨c, hcpu, rfl⟩ := Outcome.map_eq_next h
        refine .op hbooted ?_ hcpu
        simp only [ne_eq, not_and] at hused
        by_cases hit : i = t
        . exact .inl hit
        . exact .inr (hused hit)
    . simp at h
  | check i =>
    simp only at h
    split at h
    . next hand =>
      split at h
      . next hall =>
        simp only [Outcome.next.injEq] at h
        subst h
        exact .halt hand.1 hand.2.1 hand.2.2 hall
      . next hnot =>
        obtain ⟨c, hcpu, rfl⟩ := Outcome.map_eq_next h
        exact .stayAwake hand.1 hand.2.1 hand.2.2 (fun hall => hnot (.inr hall)) hcpu
    . simp at h

theorem setCpu_cpus (m : Machine n) (i j : Fin n) (c : Cpu)
    : (m.setCpu i c).cpus j = if j = i then c else m.cpus j := rfl

theorem setCpu_cpus_cases {m : Machine n} {i j : Fin n} {c : Cpu} {A : MachineAction n} {a : CpuAction}
    (hacts : m.Acts A i a) (hstep : (m.cpus i).step a = .next c)
    : (m.setCpu i c).cpus j = m.cpus j ∨
        ∃ a, m.Acts A j a ∧ (m.cpus j).step a = .next ((m.setCpu i c).cpus j) := by
  rw [setCpu_cpus]
  split
  . next hj =>
    subst hj
    exact .inr ⟨a, hacts, hstep⟩
  . exact .inl rfl

theorem step_cpus {m m' : Machine n} {A : MachineAction n} (h : m.step A = .next m') (j : Fin n)
    : m'.cpus j = m.cpus j ∨ ∃ a, m.Acts A j a ∧ (m.cpus j).step a = .next (m'.cpus j) := by
  cases step_cases h with
  | boot hnew hcpu => exact setCpu_cpus_cases (.boot hnew) hcpu
  | @sendIpi i target c hbooted hfree hpc hcpu =>
    rw [setCpu_cpus]
    split
    . next hj =>
      subst hj
      exact .inr ⟨.run, .cpu hbooted hfree (by simp) (by simp), hcpu⟩
    . unfold deliver
      dsimp only
      split
      . next htarget =>
        refine .inr ⟨.receiveIpi, .receive ?_ htarget.2, rfl⟩
        rw [hpc, htarget.1]
      . exact .inl rfl
  | cpu hbooted hfree hop hstay _ hcpu => exact setCpu_cpus_cases (.cpu hbooted hfree hop hstay) hcpu
  | ignored | halt => exact .inl rfl
  | op hbooted hused hcpu => exact setCpu_cpus_cases (.op hbooted hused) hcpu
  | stayAwake hbooted hpc hfree hnot hcpu =>
    exact setCpu_cpus_cases (.stayAwake hbooted hpc hfree hnot) hcpu

theorem step_halted {m m' : Machine n} {A : MachineAction n} (h : m.step A = .next m')
    (hhalted : m'.halted = true)
    : ∃ i, A = .check i ∧ m.booted i = true ∧ (m.cpus i).pc = .halt ∧ (n = 1 ∨ m.AllEndpoint) ∧
        m'.cpus = m.cpus ∧ m'.booted = m.booted := by
  have hrunning := step_not_halted h
  cases step_cases h with
  | @halt i hbooted hpc hfree hall => exact ⟨i, rfl, hbooted, hpc, hall, rfl, rfl⟩
  | _ => simp [setCpu, deliver, hrunning] at hhalted

theorem step_booted {m m' : Machine n} {A : MachineAction n} (h : m.step A = .next m') (j : Fin n)
    : (m'.booted j = m.booted j ∧ ∀ id ex, A ≠ .boot j id ex) ∨ m'.booted j = true := by
  cases step_cases h with
  | @boot i =>
    by_cases hj : j = i
    . exact .inr (by simp [hj])
    . exact .inl ⟨by simp [hj], by simp [Ne.symm hj]⟩
  | _ => exact .inl ⟨rfl, by simp⟩

theorem forall_cpus_step {m m' : Machine n} {A : MachineAction n} (P : Cpu → Prop)
    (allowed : Cpu → CpuAction → Prop)
    (hkeep : ∀ (c c' : Cpu) (a : CpuAction), P c → allowed c a → c.step a = .next c' → P c')
    (hallowed : ∀ j a, m.Acts A j a → allowed (m.cpus j) a) (hinv : ∀ j, P (m.cpus j))
    (hstep : m.step A = .next m')
    : ∀ j, P (m'.cpus j) := by
  intro j
  rcases step_cpus hstep j with hsame | ⟨a, hacts, hcpu⟩
  . rw [hsame]
    exact hinv j
  . exact hkeep _ _ a (hinv j) (hallowed j a hacts) hcpu

def finishRoot (i : Fin n) : List (MachineAction n) :=
  -- A CPU from `Runtime::start` up to the check, its root task is finished with the first poll.
  List.replicate 7 (.cpu i .run) ++
    [
      .cpu i (.execute .launch), .cpu i (.execute .dequeue), .cpu i (.execute .ready),
      .cpu i (.execute .dequeue), .cpu i (.execute .finish), .cpu i .yield
    ] ++
    List.replicate 11 (.cpu i .run)

def bootRoot (i : Fin n) : MachineAction n :=
  .boot i ⟨i.val⟩ (.new ⟨i.val⟩ ⟨0⟩ ⟨⟨i.val⟩, ⟨0⟩⟩)

end Machine

end Jrinx
