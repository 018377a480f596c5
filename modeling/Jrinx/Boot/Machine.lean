import Jrinx.Boot.Cpus
import Jrinx.Driver.InitStrategy

/-!
This module contains the boot of the harts from `kern/src/main.rs` and `kern/src/arch/riscv`: the hart
that the firmware starts runs `primary_init`, which starts the other ones, and they run
`secondary_init`. A step is one call of a hart, or one look at `BOOT_STATE` under its lock. The traps,
the heap and the logger are there already.
-/

namespace Jrinx

variable {arch : Arch}

inductive BootState where
  | bootstrap
  | ready (count : Nat)
  deriving DecidableEq, Repr

-- `boot_set_ready`
def BootState.setReady : BootState → BootState
  | .bootstrap => .ready 1
  | .ready count => .ready (count + 1)

inductive BootPc where
  | stopped
  -- `primary_init`
  | cpusInit
  | percpuInit
  | primaryPointer
  | probeAll
  | initStrategy
  | chosen
  | secondaryBoot
  | start (cpus : List CpuNode)
  -- `secondary_init`
  | waitReady
  | secondaryPointer
  -- the end of both of them
  | vmmInit
  | runtimeInit
  | setReady
  -- `Runtime::start`, up to the root inspector
  | runtimeStart
  -- the loop of `primary_task`
  | primaryTask
  | task
  deriving DecidableEq, Repr

-- The status of the runtime in an area of `.percpu`, and whether its root inspector is registered.
inductive CpuRuntime where
  | unused
  | registered
  | running
  deriving DecidableEq, Repr

structure CpusNode where
  -- The property `timebase-frequency`, and its number if it is one.
  timebaseFrequency : Option (Option Nat)
  children : List CpuNode
  deriving DecidableEq, Repr

structure Platform (arch : Arch) where
  -- The hart that the firmware starts.
  primary : Nat
  cpus : Option CpusNode
  -- What the root of the device tree is compatible with, the other nodes, and whether `/chosen` is there and its
  -- `bootargs` can be read.
  rootCompatible : Option RootCompatible
  nodes : List FdtNode
  chosen : Bool
  probers : List DevProber
  sort : SortUnstable (@ExclusiveIntervals.byPosAndDelta arch.bits)
  kernelEnd : VirtAddr arch
  bootTable : BootPageTable arch
  -- What the registers of the devices contain.
  regs : PlicRegs arch
  -- The size of `.percpu`, and what the kernel heap answers to a request for all areas.
  areaSize : Nat
  areaSize_pos : 0 < areaSize
  allocateZeroed : Nat → Option Nat
  -- The kernel stacks that the heap hands out, and whether there is a frame for `KERN_PAGE_TABLE`.
  kstacks : List Nat
  rootFrame : Bool
  -- The harts that there are, and whether the firmware can start them.
  harts : List Nat
  hsm : Bool

structure BootMachine (arch : Arch) where
  pc : Nat → BootPc
  nproc : Option Nat
  nprocValid : Option Nat
  globalAreaBase : Option Nat
  -- The register `gp`, once it is set.
  pointer : Nat → Option Nat
  dev : DevState arch
  kstacks : List Nat
  stack : Nat → Option Nat
  -- What has been copied when `KERN_PAGE_TABLE` was created.
  kernPageTable : Option (BootPageTable arch)
  onKernPageTable : Nat → Bool
  -- The runtimes by the addresses of their areas.
  runtimes : Nat → CpuRuntime
  bootState : BootState

namespace Platform

def children (p : Platform arch) : List CpuNode := (p.cpus.map CpusNode.children).getD []

def nproc (p : Platform arch) : Nat := (p.children.filter CpuNode.isCpu).length

def validCpus (p : Platform arch) : List CpuNode := p.children.filter CpuNode.isValidCpu

def devState (p : Platform arch) : DevState arch where
  globalIntc := false
  plicPhandle := none
  irqTable := fun _ => none
  regs := p.regs
  bootTable := p.bootTable
  heap := []
  eth0 := none

end Platform

namespace BootMachine

def init (p : Platform arch) : BootMachine arch where
  pc := fun i => if i = p.primary then .cpusInit else .stopped
  nproc := none
  nprocValid := none
  globalAreaBase := none
  pointer := fun _ => none
  dev := p.devState
  kstacks := p.kstacks
  stack := fun _ => none
  kernPageTable := none
  onKernPageTable := fun _ => false
  runtimes := fun _ => .unused
  bootState := .bootstrap

def goto (m : BootMachine arch) (i : Nat) (pc : BootPc) : BootMachine arch :=
  { m with pc := Function.update m.pc i pc }

-- `arch::cpus::init`
def cpusInit (p : Platform arch) (m : BootMachine arch) : Outcome (BootMachine arch) :=
  match p.cpus with
  | none => .panic
  | some node =>
    match node.timebaseFrequency with
    | some (some _) =>
      .next
        { m with
          nproc := some (node.children.filter CpuNode.isCpu).length
          nprocValid := some (node.children.filter CpuNode.isValidCpu).length
        }
    | _ => .panic

-- `jrinx_percpu::init`: the areas are copies of `.percpu`.
def percpuInit (p : Platform arch) (m : BootMachine arch) : Outcome (BootMachine arch) :=
  match p.allocateZeroed (p.areaSize * m.nproc.getD 0) with
  | none => .panic
  | some base => .next { m with globalAreaBase := some base, runtimes := fun _ => .unused }

-- `jrinx_percpu::set_local_pointer`
def setLocalPointer (p : Platform arch) (m : BootMachine arch) (i : Nat) : Outcome (BootMachine arch) :=
  match m.globalAreaBase with
  | none => .panic
  | some base => .next { m with pointer := Function.update m.pointer i (some (base + p.areaSize * i)) }

-- `jrinx_driver::probe_all`
def probeAll (p : Platform arch) (m : BootMachine arch) : Outcome (BootMachine arch) :=
  match p.rootCompatible with
  | none => .panic
  | some _ => (probeAllDevice p.sort p.kernelEnd p.probers p.nodes m.dev).map fun dev => { m with dev }

def initStrategy (p : Platform arch) (m : BootMachine arch) (i : Nat) : Outcome (BootMachine arch) :=
  match p.rootCompatible with
  | none => .panic
  | some rootCompatible => (m.dev.initStrategy rootCompatible i).map fun dev => { m with dev }

-- One round of the loop of `arch::cpus::start`.
def startCpu (p : Platform arch) (m : BootMachine arch) (i : Nat) (cpu : CpuNode)
    : Outcome (BootMachine arch) :=
  match cpu.hartOf arch with
  | .continue => .next m
  | .parseError => .panic
  | .hart id =>
    if id = i then
      .next m
    else
      match m.kstacks with
      | [] => .panic
      | stack :: kstacks =>
        -- `hart_start` fails for a hart that does not exist and for one that runs already.
        if id ∈ p.harts ∧ m.pc id = .stopped then
          .next ({ m with kstacks, stack := Function.update m.stack id (some stack) }.goto id .waitReady)
        else
          .panic

-- `jrinx_vmm::init`: the first call creates `KERN_PAGE_TABLE`.
def vmmInit (p : Platform arch) (m : BootMachine arch) (i : Nat) : Outcome (BootMachine arch) :=
  let m := { m with onKernPageTable := Function.update m.onKernPageTable i true }
  match m.kernPageTable with
  | some _ => .next m
  | none => if p.rootFrame then .next { m with kernPageTable := some m.dev.bootTable } else .panic

/-
An access to the runtime of this CPU. One through a `gp` that is not set, or that does not point to an
area, is undefined and counts as a panic.
-/
def withRuntime (p : Platform arch) (m : BootMachine arch) (i : Nat) (runtime : CpuRuntime)
    : Outcome (BootMachine arch) :=
  match m.pointer i, m.globalAreaBase with
  | some a, some base =>
    if base ≤ a ∧ a + p.areaSize ≤ base + p.areaSize * m.nproc.getD 0 then
      .next { m with runtimes := Function.update m.runtimes a runtime }
    else
      .panic
  | _, _ => .panic

def step (p : Platform arch) (m : BootMachine arch) (i : Nat) : Outcome (BootMachine arch) :=
  match m.pc i with
  | .stopped => .disabled
  | .cpusInit => (m.cpusInit p).map (·.goto i .percpuInit)
  | .percpuInit => (m.percpuInit p).map (·.goto i .primaryPointer)
  | .primaryPointer => (m.setLocalPointer p i).map (·.goto i .probeAll)
  | .probeAll => (m.probeAll p).map (·.goto i .initStrategy)
  | .initStrategy => (m.initStrategy p i).map (·.goto i .chosen)
  | .chosen => if p.chosen then .next (m.goto i .secondaryBoot) else .panic
  | .secondaryBoot => .next (m.goto i (.start (if p.hsm then p.validCpus else [])))
  | .start [] => .next (m.goto i .vmmInit)
  | .start (cpu :: cpus) => (m.startCpu p i cpu).map (·.goto i (.start cpus))
  | .waitReady =>
    match m.bootState with
    | .bootstrap => .next m
    | .ready _ => .next (m.goto i .secondaryPointer)
  | .secondaryPointer => (m.setLocalPointer p i).map (·.goto i .vmmInit)
  | .vmmInit => (m.vmmInit p i).map (·.goto i .runtimeInit)
  | .runtimeInit => (m.withRuntime p i .registered).map (·.goto i .setReady)
  | .setReady => .next ({ m with bootState := m.bootState.setReady }.goto i .runtimeStart)
  | .runtimeStart =>
    (m.withRuntime p i .running).map (·.goto i (if i = p.primary then .primaryTask else .task))
  | .primaryTask =>
    match m.bootState with
    | .bootstrap => .next (m.goto i .task)
    | .ready count => if count = m.nprocValid.getD 0 then .next (m.goto i .task) else .next m
  | .task => .disabled

section

variable {p : Platform arch} {m m' : BootMachine arch} {i j : Nat} {pc : BootPc}

@[simp]
theorem goto_pc : (m.goto i pc).pc = Function.update m.pc i pc := rfl

theorem cpusInit_pc (h : m.cpusInit p = .next m') : m'.pc = m.pc := by
  unfold cpusInit at h
  split at h
  . simp at h
  . split at h
    . cases h
      rfl
    . simp at h

theorem percpuInit_pc (h : m.percpuInit p = .next m') : m'.pc = m.pc := by
  unfold percpuInit at h
  split at h
  . simp at h
  . cases h
    rfl

theorem setLocalPointer_pc (h : m.setLocalPointer p i = .next m') : m'.pc = m.pc := by
  unfold setLocalPointer at h
  split at h
  . simp at h
  . cases h
    rfl

theorem probeAll_pc (h : m.probeAll p = .next m') : m'.pc = m.pc := by
  unfold probeAll at h
  split at h
  . simp at h
  . obtain ⟨dev, _, rfl⟩ := Outcome.map_eq_next h
    rfl

theorem initStrategy_pc (h : m.initStrategy p i = .next m') : m'.pc = m.pc := by
  unfold initStrategy at h
  split at h
  . simp at h
  . obtain ⟨dev, _, rfl⟩ := Outcome.map_eq_next h
    rfl

theorem vmmInit_pc (h : m.vmmInit p i = .next m') : m'.pc = m.pc := by
  simp only [vmmInit] at h
  split at h
  . cases h
    rfl
  . split at h
    . cases h
      rfl
    . simp at h

theorem withRuntime_pc {runtime : CpuRuntime} (h : m.withRuntime p i runtime = .next m')
    : m'.pc = m.pc := by
  unfold withRuntime at h
  split at h
  . split at h
    . cases h
      rfl
    . simp at h
  . simp at h

theorem startCpu_pc {cpu : CpuNode} (h : m.startCpu p i cpu = .next m') (j : Nat)
    : m'.pc j = m.pc j ∨ m.pc j = .stopped ∧ m'.pc j = .waitReady := by
  unfold startCpu at h
  split at h
  next =>
    cases h
    exact .inl rfl
  next => simp at h
  next id _ =>
    split at h
    . cases h
      exact .inl rfl
    . split at h
      . simp at h
      . split at h
        . next hid =>
          cases h
          rw [goto_pc]
          by_cases hj : j = id
          . rw [hj, Function.update_self]
            exact .inr ⟨hid.2, rfl⟩
          . rw [Function.update_of_ne hj]
            exact .inl rfl
        . simp at h

theorem step_pc (h : m.step p i = .next m') (hji : j ≠ i)
    : m'.pc j = m.pc j ∨ m.pc j = .stopped ∧ m'.pc j = .waitReady := by
  have hmap {o : Outcome (BootMachine arch)} {pc : BootPc} (ho : o.map (·.goto i pc) = .next m')
      (hn : ∀ n, o = .next n → n.pc j = m.pc j ∨ m.pc j = .stopped ∧ n.pc j = .waitReady)
      : m'.pc j = m.pc j ∨ m.pc j = .stopped ∧ m'.pc j = .waitReady := by
    obtain ⟨n, hnext, rfl⟩ := Outcome.map_eq_next ho
    rw [goto_pc, Function.update_of_ne hji]
    exact hn n hnext
  have hgoto {n : BootMachine arch} {pc : BootPc} (hn : n.pc = m.pc) : (n.goto i pc).pc j = m.pc j := by
    rw [goto_pc, Function.update_of_ne hji, hn]
  unfold step at h
  split at h
  . simp at h
  . exact hmap h fun n hn => .inl (congrFun (cpusInit_pc hn) j)
  . exact hmap h fun n hn => .inl (congrFun (percpuInit_pc hn) j)
  . exact hmap h fun n hn => .inl (congrFun (setLocalPointer_pc hn) j)
  . exact hmap h fun n hn => .inl (congrFun (probeAll_pc hn) j)
  . exact hmap h fun n hn => .inl (congrFun (initStrategy_pc hn) j)
  . split at h
    . cases h
      exact .inl (hgoto rfl)
    . simp at h
  . cases h
    exact .inl (hgoto rfl)
  . cases h
    exact .inl (hgoto rfl)
  . exact hmap h fun n hn => startCpu_pc hn j
  . split at h
    . cases h
      exact .inl rfl
    . cases h
      exact .inl (hgoto rfl)
  . exact hmap h fun n hn => .inl (congrFun (setLocalPointer_pc hn) j)
  . exact hmap h fun n hn => .inl (congrFun (vmmInit_pc hn) j)
  . exact hmap h fun n hn => .inl (congrFun (withRuntime_pc hn) j)
  . cases h
    exact .inl (hgoto rfl)
  . exact hmap h fun n hn => .inl (congrFun (withRuntime_pc hn) j)
  . split at h
    . cases h
      exact .inl (hgoto rfl)
    . split at h
      . cases h
        exact .inl (hgoto rfl)
      . cases h
        exact .inl rfl
  . simp at h

theorem step_pc_of_ne (h : m.step p i = .next m') (hji : j ≠ i) (hj : m.pc j ≠ .stopped)
    : m'.pc j = m.pc j := by
  rcases step_pc h hji with hsame | ⟨hstopped, _⟩
  . exact hsame
  . exact absurd hstopped hj

end

end BootMachine

end Jrinx
