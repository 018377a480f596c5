import Jrinx.Boot.Machine

/-!
This module contains the proof of what it takes for a platform to boot without a panic. All the data of
the machine is determined by how far every hart has got, and the secondary harts wait until the
primary one has counted itself.
-/

namespace Jrinx

variable {arch : Arch}

namespace BootPc

def phase (pc : BootPc) : Nat :=
  match pc with
  | .stopped => 0
  | .waitReady => 1
  | .cpusInit => 1
  | .percpuInit => 2
  | .secondaryPointer => 3
  | .primaryPointer => 3
  | .probeAll => 4
  | .initStrategy => 5
  | .chosen => 6
  | .secondaryBoot => 7
  | .start _ => 8
  | .vmmInit => 9
  | .runtimeInit => 10
  | .setReady => 11
  | .runtimeStart => 12
  | .primaryTask => 13
  | .task => 14

def ofPrimary (pc : BootPc) : Bool :=
  match pc with
  | .stopped => false
  | .waitReady => false
  | .secondaryPointer => false
  | _ => true

def ofSecondary (pc : BootPc) : Bool :=
  match pc with
  | .cpusInit => false
  | .percpuInit => false
  | .primaryPointer => false
  | .probeAll => false
  | .initStrategy => false
  | .chosen => false
  | .secondaryBoot => false
  | .start _ => false
  | .primaryTask => false
  | _ => true

def unstarted (pc : BootPc) (cpus : List CpuNode) : List CpuNode :=
  match pc with
  | .start cpus => cpus
  | pc => if pc.phase ≤ 7 then cpus else []

def runtime (pc : BootPc) : CpuRuntime :=
  if pc.phase ≤ 10 then .unused else if pc.phase ≤ 12 then .registered else .running

end BootPc

namespace Platform

def targets (p : Platform arch) (cpus : List CpuNode) : List Nat :=
  cpus.filterMap fun cpu =>
    match cpu.hartOf arch with
    | .hart id => if id = p.primary then none else some id
    | _ => none

def startList (p : Platform arch) : List CpuNode := if p.hsm then p.validCpus else []

def secondaries (p : Platform arch) : List Nat := p.targets p.startList

def nprocValid (p : Platform arch) : Nat := p.validCpus.length

def probed (p : Platform arch) : Outcome (DevState arch) :=
  probeAllDevice p.sort p.kernelEnd p.probers p.nodes p.devState

-- The devices can be probed, and then `init_strategy` finds what it relies on.
def DevicesReady (p : Platform arch) : Prop :=
  ∃ rootCompatible probed, p.rootCompatible = some rootCompatible ∧ p.probed = .next probed ∧
    probed.StrategyReady rootCompatible p.primary

structure Bootable (p : Platform arch) : Prop where
  cpus : ∃ node freq, p.cpus = some node ∧ node.timebaseFrequency = some (some freq)
  areas : ∃ base, p.allocateZeroed (p.areaSize * p.nproc) = some base
  primary_lt : p.primary < p.nproc
  devices : p.DevicesReady
  chosen : p.chosen = true
  parses : ∀ cpu ∈ p.startList, cpu.hartOf arch ≠ .parseError
  harts : ∀ id ∈ p.secondaries, id ∈ p.harts
  secondaries_lt : ∀ id ∈ p.secondaries, id < p.nproc
  nodup : p.secondaries.Nodup
  kstacks : p.secondaries.length ≤ p.kstacks.length
  rootFrame : p.rootFrame = true

variable {p : Platform arch}

theorem targets_append (cpus cpus' : List CpuNode)
    : p.targets (cpus ++ cpus') = p.targets cpus ++ p.targets cpus' :=
  List.filterMap_append

theorem primary_notMem_targets (cpus : List CpuNode) : p.primary ∉ p.targets cpus := by
  intro h
  obtain ⟨cpu, _, hcpu⟩ := List.mem_filterMap.mp h
  split at hcpu
  . split at hcpu <;> simp_all
  . simp at hcpu

end Platform

namespace BootMachine

section

variable (p : Platform arch) (base : Nat) (probed : DevState arch) (regs : PlicRegs arch)

structure Answers : Prop where
  areas : p.allocateZeroed (p.areaSize * p.nproc) = some base
  devices : ∃ rootCompatible, p.rootCompatible = some rootCompatible ∧ p.probed = .next probed ∧
    probed.initStrategy rootCompatible p.primary = .next { probed with regs }

def counted (m : BootMachine arch) : Nat :=
  (p.primary :: p.secondaries).countP (fun i => decide (11 < (m.pc i).phase))

/--
The primary hart is at `pc`, it has started the harts of `done`.
-/
structure Placed (done : List CpuNode) (pc : BootPc) (m : BootMachine arch) : Prop where
  primary : m.pc p.primary = pc
  ofPrimary : pc.ofPrimary = true
  ofSecondary : ∀ i ≠ p.primary, (m.pc i).ofSecondary = true
  waiting : pc.phase ≤ 11 → ∀ i ≠ p.primary, (m.pc i).phase ≤ 1
  started : ∀ i ≠ p.primary, m.pc i ≠ .stopped ↔ i ∈ p.targets done
  split : p.startList = done ++ pc.unstarted p.startList
  kstacks : m.kstacks = p.kstacks.drop (p.targets done).length
  stack : ∀ i ∈ p.targets done, m.stack i = p.kstacks[(p.targets done).idxOf i]?

structure Shared (pc : BootPc) (m : BootMachine arch) : Prop where
  nproc : m.nproc = if 1 < pc.phase then some p.nproc else none
  nprocValid : m.nprocValid = if 1 < pc.phase then some p.nprocValid else none
  globalAreaBase : m.globalAreaBase = if 2 < pc.phase then some base else none
  dev : m.dev = if 5 < pc.phase then { probed with regs } else if 4 < pc.phase then probed else p.devState
  kernPageTable : m.kernPageTable = if 9 < pc.phase then some probed.bootTable else none

structure Local (pc : BootPc) (m : BootMachine arch) (i : Nat) : Prop where
  pointer : m.pointer i = if 3 < pc.phase then some (base + p.areaSize * i) else none
  onKernPageTable : m.onKernPageTable i = decide (9 < pc.phase)
  runtime : m.runtimes (base + p.areaSize * i) = pc.runtime

structure Reached (done : List CpuNode) (pc : BootPc) (m : BootMachine arch) : Prop where
  placed : Placed p done pc m
  shared : Shared p base probed regs pc m
  locals : ∀ i, Local p base (m.pc i) m i
  bootState : m.bootState = if pc.phase ≤ 11 then .bootstrap else .ready (counted p m)

end

variable {p : Platform arch} {base : Nat} {probed : DevState arch} {regs : PlicRegs arch} {done : List CpuNode}
  {pc pc' : BootPc} {m m' : BootMachine arch} {i j : Nat}

theorem Placed.primary_move (h : Placed p done pc m) (hpc : m'.pc = Function.update m.pc p.primary pc')
    (hkstacks : m'.kstacks = m.kstacks) (hstack : m'.stack = m.stack) (hrole : pc'.ofPrimary = true)
    (hphase : pc'.phase ≤ 11 → pc.phase ≤ 11)
    (hunstarted : pc'.unstarted p.startList = pc.unstarted p.startList)
    : Placed p done pc' m' where
  primary := by rw [hpc, Function.update_self]
  ofPrimary := hrole
  ofSecondary i hi := by
    rw [hpc, Function.update_of_ne hi]
    exact h.ofSecondary i hi
  waiting hle i hi := by
    rw [hpc, Function.update_of_ne hi]
    exact h.waiting (hphase hle) i hi
  started i hi := by
    rw [hpc, Function.update_of_ne hi]
    exact h.started i hi
  split := by
    rw [hunstarted]
    exact h.split
  kstacks := hkstacks.trans h.kstacks
  stack i hi := by
    rw [hstack]
    exact h.stack i hi

theorem Placed.secondary_move (h : Placed p done pc m) (hi : i ≠ p.primary)
    (hpc : m'.pc = Function.update m.pc i pc') (hkstacks : m'.kstacks = m.kstacks)
    (hstack : m'.stack = m.stack) (hrole : pc'.ofSecondary = true) (hpos : 11 < pc.phase)
    (hstarted : m.pc i ≠ .stopped) (hstarted' : pc' ≠ .stopped)
    : Placed p done pc m' where
  primary := by
    rw [hpc, Function.update_of_ne (Ne.symm hi)]
    exact h.primary
  ofPrimary := h.ofPrimary
  ofSecondary j hj := by
    rw [hpc]
    by_cases hji : j = i
    . rwa [hji, Function.update_self]
    . rw [Function.update_of_ne hji]
      exact h.ofSecondary j hj
  waiting hle := by omega
  started j hj := by
    rw [hpc, ← h.started j hj]
    by_cases hji : j = i
    . subst hji
      simp only [Function.update_self, ne_eq, hstarted', hstarted]
    . rw [Function.update_of_ne hji]
  split := h.split
  kstacks := hkstacks.trans h.kstacks
  stack j hj := by
    rw [hstack]
    exact h.stack j hj

theorem Local.congr (h : Local p base pc m i) (hpointer : m'.pointer i = m.pointer i)
    (honKern : m'.onKernPageTable i = m.onKernPageTable i)
    (hruntime : m'.runtimes (base + p.areaSize * i) = m.runtimes (base + p.areaSize * i))
    : Local p base pc m' i where
  pointer := hpointer.trans h.pointer
  onKernPageTable := honKern.trans h.onKernPageTable
  runtime := hruntime.trans h.runtime

theorem locals_move (h : ∀ j, Local p base (m.pc j) m j) (hpc : m'.pc = Function.update m.pc i pc')
    (hpointer : ∀ j ≠ i, m'.pointer j = m.pointer j)
    (honKern : ∀ j ≠ i, m'.onKernPageTable j = m.onKernPageTable j)
    (hruntime : ∀ j ≠ i, m'.runtimes (base + p.areaSize * j) = m.runtimes (base + p.areaSize * j))
    (hi : Local p base pc' m' i) (j : Nat)
    : Local p base (m'.pc j) m' j := by
  rw [hpc]
  by_cases hji : j = i
  . subst hji
    rwa [Function.update_self]
  . rw [Function.update_of_ne hji]
    exact (h j).congr (hpointer j hji) (honKern j hji) (hruntime j hji)

theorem area_ne (hji : j ≠ i) : base + p.areaSize * j ≠ base + p.areaSize * i := by
  intro h
  have hmul : p.areaSize * j = p.areaSize * i := by omega
  exact hji (Nat.eq_of_mul_eq_mul_left p.areaSize_pos hmul)

section

variable {l : List Nat} {f : Nat → BootPc}

theorem countP_update_of_eq (q : BootPc → Bool) (h : q pc' = q (f i))
    : l.countP (fun j => q (Function.update f i pc' j)) = l.countP (fun j => q (f j)) := by
  apply List.countP_congr
  intro j _
  by_cases hji : j = i
  . rw [hji, Function.update_self, h]
  . rw [Function.update_of_ne hji]

theorem countP_update_of_mem (q : BootPc → Bool) (hnodup : l.Nodup) (hi : i ∈ l) (hold : q (f i) = false)
    (hnew : q pc' = true)
    : l.countP (fun j => q (Function.update f i pc' j)) = l.countP (fun j => q (f j)) + 1 := by
  induction l with
  | nil => simp at hi
  | cons k l ih =>
    rw [List.nodup_cons] at hnodup
    by_cases hki : k = i
    . subst hki
      have hrest : l.countP (fun j => q (Function.update f k pc' j)) = l.countP (fun j => q (f j)) := by
        apply List.countP_congr
        intro j hj
        rw [Function.update_of_ne (by rintro rfl; exact hnodup.1 hj)]
      rw [List.countP_cons_of_pos (by simpa using hnew), List.countP_cons_of_neg (by simp [hold]), hrest]
    . have hmem : i ∈ l := by
        rcases List.mem_cons.mp hi with rfl | hmem
        . exact absurd rfl hki
        . exact hmem
      rw [List.countP_cons, List.countP_cons, ih hnodup.2 hmem, Function.update_of_ne hki]
      omega

end

theorem counted_move (hpc : m'.pc = Function.update m.pc i pc')
    (h : 11 < pc'.phase ↔ 11 < (m.pc i).phase)
    : counted p m' = counted p m := by
  unfold counted
  rw [hpc]
  exact countP_update_of_eq (fun pc => decide (11 < pc.phase)) (by simpa using h)

theorem nodup_harts (hnodup : p.secondaries.Nodup) : (p.primary :: p.secondaries).Nodup :=
  List.nodup_cons.mpr ⟨Platform.primary_notMem_targets _, hnodup⟩

theorem counted_count (hnodup : p.secondaries.Nodup) (hi : i ∈ p.primary :: p.secondaries)
    (hpc : m'.pc = Function.update m.pc i pc') (hold : (m.pc i).phase ≤ 11) (hnew : 11 < pc'.phase)
    : counted p m' = counted p m + 1 := by
  unfold counted
  rw [hpc]
  exact countP_update_of_mem (fun pc => decide (11 < pc.phase)) (nodup_harts hnodup) hi (by simpa using hold)
    (by simpa using hnew)

theorem Reached.primary_move (h : Reached p base probed regs done pc m)
    (hpc : m'.pc = Function.update m.pc p.primary pc') (hkstacks : m'.kstacks = m.kstacks)
    (hstack : m'.stack = m.stack) (hrole : pc'.ofPrimary = true)
    (hunstarted : pc'.unstarted p.startList = pc.unstarted p.startList)
    (hphase : pc'.phase ≤ 11 ↔ pc.phase ≤ 11) (hbootState : m'.bootState = m.bootState)
    (hpointer : ∀ j ≠ p.primary, m'.pointer j = m.pointer j)
    (honKern : ∀ j ≠ p.primary, m'.onKernPageTable j = m.onKernPageTable j)
    (hruntime : ∀ j ≠ p.primary,
      m'.runtimes (base + p.areaSize * j) = m.runtimes (base + p.areaSize * j))
    (hshared : Shared p base probed regs pc' m') (hlocal : Local p base pc' m' p.primary)
    : Reached p base probed regs done pc' m' where
  placed := h.placed.primary_move hpc hkstacks hstack hrole hphase.mp hunstarted
  shared := hshared
  locals := locals_move h.locals hpc hpointer honKern hruntime hlocal
  bootState := by
    have hcounted : counted p m' = counted p m := by
      apply counted_move hpc
      rw [h.placed.primary]
      omega
    rw [hbootState, h.bootState, hcounted]
    simp only [hphase]

theorem Reached.local_primary (h : Reached p base probed regs done pc m) : Local p base pc m p.primary := by
  have hlocal := h.locals p.primary
  rwa [h.placed.primary] at hlocal

theorem nproc_eq {node : CpusNode} (hnode : p.cpus = some node)
    : (node.children.filter CpuNode.isCpu).length = p.nproc := by
  simp [Platform.nproc, Platform.children, hnode]

theorem nprocValid_eq {node : CpusNode} (hnode : p.cpus = some node)
    : (node.children.filter CpuNode.isValidCpu).length = p.nprocValid := by
  simp [Platform.nprocValid, Platform.validCpus, Platform.children, hnode]

section

variable (p : Platform arch) (base : Nat) (probed : DevState arch) (regs : PlicRegs arch)

-- The next step of a hart takes it to `pc'`, the primary hart is at `pc` then.
def Moves (m : BootMachine arch) (i : Nat) (done : List CpuNode) (pc pc' : BootPc) : Prop :=
  ∃ m', m.step p i = .next m' ∧ m'.pc i = pc' ∧ Reached p base probed regs done pc m'

def Steps (m : BootMachine arch) (i : Nat) : Prop :=
  (m.pc i = .stopped ∨ m.pc i = .task) ∨ ∃ done pc pc', Moves p base probed regs m i done pc pc'

end

theorem Moves.steps (h : Moves p base probed regs m i done pc pc') : Steps p base probed regs m i :=
  .inr ⟨done, pc, pc', h⟩

theorem Reached.cpusInit
    (hcpus : ∃ node freq, p.cpus = some node ∧ node.timebaseFrequency = some (some freq))
    (h : Reached p base probed regs done .cpusInit m)
    : Moves p base probed regs m p.primary done .percpuInit .percpuInit := by
  obtain ⟨node, freq, hnode, hfreq⟩ := hcpus
  have hstep : m.step p p.primary = .next
      ({ m with nproc := some p.nproc, nprocValid := some p.nprocValid }.goto p.primary .percpuInit) := by
    simp only [step, h.placed.primary, BootMachine.cpusInit, hnode, hfreq, nproc_eq hnode,
      nprocValid_eq hnode, Outcome.map_next]
  refine ⟨_, hstep, Function.update_self _ _ _, h.primary_move rfl rfl rfl rfl rfl (by decide) rfl
    (fun _ _ => rfl) (fun _ _ => rfl) (fun _ _ => rfl) ?_ ?_⟩
  . exact { h.shared with nproc := rfl, nprocValid := rfl }
  . exact { h.local_primary with }

theorem Reached.percpuInit (hareas : p.allocateZeroed (p.areaSize * p.nproc) = some base)
    (h : Reached p base probed regs done .percpuInit m)
    : Moves p base probed regs m p.primary done .primaryPointer .primaryPointer := by
  have hnproc : m.nproc = some p.nproc := h.shared.nproc
  have hstep : m.step p p.primary = .next
      ({ m with globalAreaBase := some base, runtimes := fun _ => .unused }.goto p.primary
        .primaryPointer) := by
    simp only [step, h.placed.primary, BootMachine.percpuInit, hnproc, Option.getD_some, hareas,
      Outcome.map_next]
  -- No hart has registered its runtime yet, so that the copy changes nothing.
  have hunused (j : Nat) : m.runtimes (base + p.areaSize * j) = .unused := by
    rw [(h.locals j).runtime]
    by_cases hj : j = p.primary
    . rw [hj, h.placed.primary]
      rfl
    . have hwait := h.placed.waiting (by decide) j hj
      rw [BootPc.runtime, if_pos (by omega)]
  refine ⟨_, hstep, Function.update_self _ _ _, h.primary_move rfl rfl rfl rfl rfl (by decide) rfl
    (fun _ _ => rfl) (fun _ _ => rfl) (fun j _ => (hunused j).symm) ?_ ?_⟩
  . exact { h.shared with globalAreaBase := rfl }
  . exact { h.local_primary with runtime := rfl }

theorem Reached.primaryPointer (h : Reached p base probed regs done .primaryPointer m)
    : Moves p base probed regs m p.primary done .probeAll .probeAll := by
  have hbase : m.globalAreaBase = some base := h.shared.globalAreaBase
  have hstep : m.step p p.primary = .next
      ({ m with
          pointer := Function.update m.pointer p.primary (some (base + p.areaSize * p.primary)) }.goto
        p.primary .probeAll) := by
    simp only [step, h.placed.primary, setLocalPointer, hbase, Outcome.map_next]
  refine ⟨_, hstep, Function.update_self _ _ _, h.primary_move rfl rfl rfl rfl rfl (by decide) rfl
    (fun j hj => Function.update_of_ne hj _ _) (fun _ _ => rfl) (fun _ _ => rfl) ?_ ?_⟩
  . exact { h.shared with }
  . exact { h.local_primary with pointer := Function.update_self _ _ _ }

theorem Reached.probeAll (h : Reached p base probed regs done .probeAll m) {rootCompatible : RootCompatible}
    (hroot : p.rootCompatible = some rootCompatible) (hprobe : p.probed = .next probed)
    : Moves p base probed regs m p.primary done .initStrategy .initStrategy := by
  have hdev : m.dev = p.devState := h.shared.dev
  rw [Platform.probed] at hprobe
  have hstep : m.step p p.primary = .next ({ m with dev := probed }.goto p.primary .initStrategy) := by
    simp only [step, h.placed.primary, BootMachine.probeAll, hroot, hdev, hprobe, Outcome.map_next]
  refine ⟨_, hstep, Function.update_self _ _ _, h.primary_move rfl rfl rfl rfl rfl (by decide) rfl
    (fun _ _ => rfl) (fun _ _ => rfl) (fun _ _ => rfl) ?_ ?_⟩
  . exact { h.shared with dev := rfl }
  . exact { h.local_primary with }

theorem Reached.initStrategy (h : Reached p base probed regs done .initStrategy m) {rootCompatible : RootCompatible}
    (hroot : p.rootCompatible = some rootCompatible)
    (hstrategy : probed.initStrategy rootCompatible p.primary = .next { probed with regs })
    : Moves p base probed regs m p.primary done .chosen .chosen := by
  have hdev : m.dev = probed := h.shared.dev
  have hstep : m.step p p.primary = .next ({ m with dev := { probed with regs } }.goto p.primary .chosen) := by
    simp only [step, h.placed.primary, BootMachine.initStrategy, hroot, hdev, hstrategy, Outcome.map_next]
  refine ⟨_, hstep, Function.update_self _ _ _, h.primary_move rfl rfl rfl rfl rfl (by decide) rfl
    (fun _ _ => rfl) (fun _ _ => rfl) (fun _ _ => rfl) ?_ ?_⟩
  . exact { h.shared with dev := rfl }
  . exact { h.local_primary with }

theorem Reached.chosen (hchosen : p.chosen = true) (h : Reached p base probed regs done .chosen m)
    : Moves p base probed regs m p.primary done .secondaryBoot .secondaryBoot := by
  have hstep : m.step p p.primary = .next (m.goto p.primary .secondaryBoot) := by
    simp only [step, h.placed.primary, hchosen, if_true]
  refine ⟨_, hstep, Function.update_self _ _ _, h.primary_move rfl rfl rfl rfl rfl (by decide) rfl
    (fun _ _ => rfl) (fun _ _ => rfl) (fun _ _ => rfl) ?_ ?_⟩
  . exact { h.shared with }
  . exact { h.local_primary with }

theorem Reached.secondaryBoot (h : Reached p base probed regs done .secondaryBoot m)
    : Moves p base probed regs m p.primary done (.start p.startList) (.start p.startList) := by
  have hstep : m.step p p.primary = .next (m.goto p.primary (.start p.startList)) := by
    simp only [step, h.placed.primary, Platform.startList]
  refine ⟨_, hstep, Function.update_self _ _ _, h.primary_move rfl rfl rfl rfl rfl
    (show 8 ≤ 11 ↔ 7 ≤ 11 by decide) rfl (fun _ _ => rfl) (fun _ _ => rfl) (fun _ _ => rfl) ?_ ?_⟩
  . exact { h.shared with }
  . exact { h.local_primary with }

theorem Reached.start_nil (h : Reached p base probed regs done (.start []) m)
    : Moves p base probed regs m p.primary done .vmmInit .vmmInit := by
  have hstep : m.step p p.primary = .next (m.goto p.primary .vmmInit) := by
    simp only [step, h.placed.primary]
  refine ⟨_, hstep, Function.update_self _ _ _, h.primary_move rfl rfl rfl rfl rfl
    (show 9 ≤ 11 ↔ 8 ≤ 11 by decide) rfl (fun _ _ => rfl) (fun _ _ => rfl) (fun _ _ => rfl) ?_ ?_⟩
  . exact { h.shared with }
  . exact { h.local_primary with }

theorem Reached.skip {cpu : CpuNode} {cpus : List CpuNode}
    (h : Reached p base probed regs done (.start (cpu :: cpus)) m) (htarget : p.targets [cpu] = [])
    : Reached p base probed regs (done ++ [cpu]) (.start cpus) (m.goto p.primary (.start cpus)) where
  placed :=
    { primary := Function.update_self _ _ _
      ofPrimary := rfl
      ofSecondary := fun i hi => by
        rw [goto_pc, Function.update_of_ne hi]
        exact h.placed.ofSecondary i hi
      waiting := fun _ i hi => by
        rw [goto_pc, Function.update_of_ne hi]
        exact h.placed.waiting (show 8 ≤ 11 by decide) i hi
      started := fun i hi => by
        rw [goto_pc, Function.update_of_ne hi, Platform.targets_append, htarget, List.append_nil]
        exact h.placed.started i hi
      split := by
        rw [List.append_assoc]
        exact h.placed.split
      kstacks := by
        rw [Platform.targets_append, htarget, List.append_nil]
        exact h.placed.kstacks
      stack := by
        rw [Platform.targets_append, htarget, List.append_nil]
        exact h.placed.stack }
  shared := { h.shared with }
  locals := locals_move h.locals rfl (fun _ _ => rfl) (fun _ _ => rfl) (fun _ _ => rfl)
    { h.local_primary with }
  bootState := h.bootState

theorem Reached.startHart {cpu : CpuNode} {cpus : List CpuNode} {id stack : Nat} {kstacks : List Nat}
    (h : Reached p base probed regs done (.start (cpu :: cpus)) m) (htarget : p.targets [cpu] = [id])
    (hnotMem : id ∉ p.targets done) (hkstacks : m.kstacks = stack :: kstacks)
    : Reached p base probed regs (done ++ [cpu]) (.start cpus)
        (({ m with kstacks, stack := Function.update m.stack id (some stack) }.goto id .waitReady).goto
          p.primary (.start cpus)) := by
  have hne : id ≠ p.primary := by
    rintro rfl
    exact p.primary_notMem_targets [cpu] (by simp [htarget])
  have htargets : p.targets (done ++ [cpu]) = p.targets done ++ [id] := by
    rw [Platform.targets_append, htarget]
  have hstopped : m.pc id = .stopped := by
    by_contra hstarted
    exact hnotMem ((h.placed.started id hne).mp hstarted)
  have hdrop : p.kstacks.drop (p.targets done).length = stack :: kstacks :=
    h.placed.kstacks.symm.trans hkstacks
  have hget : p.kstacks[(p.targets done).length]? = some stack := by
    have := congrArg List.head? hdrop
    rwa [List.head?_drop] at this
  have hother (j : Nat) (hj : j ≠ p.primary) (hji : j ≠ id)
      : Function.update (Function.update m.pc id .waitReady) p.primary (.start cpus) j = m.pc j := by
    rw [Function.update_of_ne hj, Function.update_of_ne hji]
  have hid : Function.update (Function.update m.pc id .waitReady) p.primary (.start cpus) id =
      .waitReady := by
    rw [Function.update_of_ne hne, Function.update_self]
  let n := { m with kstacks, stack := Function.update m.stack id (some stack) }.goto id .waitReady
  have hlocals : ∀ j, Local p base (n.pc j) n j := by
    have hpc : n.pc = Function.update m.pc id .waitReady := rfl
    apply locals_move h.locals hpc (fun _ _ => rfl) (fun _ _ => rfl) (fun _ _ => rfl)
    have hlocal := h.locals id
    rw [hstopped] at hlocal
    exact { hlocal with }
  refine ⟨⟨Function.update_self _ _ _, rfl, ?_, ?_, ?_, ?_, ?_, ?_⟩, { h.shared with }, ?_, h.bootState⟩
  . intro j hj
    by_cases hji : j = id
    . subst hji
      exact congrArg BootPc.ofSecondary hid
    . exact (congrArg BootPc.ofSecondary (hother j hj hji)).trans (h.placed.ofSecondary j hj)
  . intro _ j hj
    by_cases hji : j = id
    . subst hji
      exact (congrArg BootPc.phase hid).le
    . exact (congrArg BootPc.phase (hother j hj hji)).le.trans
        (h.placed.waiting (show 8 ≤ 11 by decide) j hj)
  . intro j hj
    rw [htargets, List.mem_append, List.mem_singleton, ← h.placed.started j hj]
    by_cases hji : j = id
    . subst hji
      simp only [goto_pc, hid, ne_eq, reduceCtorEq, not_false_eq_true, or_true]
    . simp only [goto_pc, hother j hj hji, hji, or_false]
  . rw [List.append_assoc]
    exact h.placed.split
  . rw [htargets, List.length_append, List.length_singleton, ← List.drop_drop, hdrop]
    rfl
  . intro j hj
    rw [htargets] at hj ⊢
    by_cases hji : j = id
    . subst hji
      rw [List.idxOf_append_of_notMem hnotMem, List.idxOf_cons_self, Nat.add_zero, hget]
      exact Function.update_self _ _ _
    . have hmem : j ∈ p.targets done := by simpa [hji] using hj
      rw [List.idxOf_append_of_mem hmem, ← h.placed.stack j hmem]
      exact Function.update_of_ne hji _ _
  . refine locals_move hlocals (goto_pc) (fun _ _ => rfl) (fun _ _ => rfl) (fun _ _ => rfl) ?_
    exact { h.local_primary with }

theorem Reached.start_cons {cpu : CpuNode} {cpus : List CpuNode} (hboot : p.Bootable)
    (h : Reached p base probed regs done (.start (cpu :: cpus)) m)
    : Moves p base probed regs m p.primary (done ++ [cpu]) (.start cpus) (.start cpus) := by
  have hsplit : p.startList = done ++ cpu :: cpus := h.placed.split
  cases hhart : cpu.hartOf arch with
  | parseError => exact absurd hhart (hboot.parses cpu (by simp [hsplit]))
  | «continue» =>
    refine ⟨_, ?_, Function.update_self _ _ _, h.skip (by simp [Platform.targets, hhart])⟩
    simp only [step, h.placed.primary, startCpu, hhart, Outcome.map_next]
  | hart id =>
    by_cases hid : id = p.primary
    . refine ⟨_, ?_, Function.update_self _ _ _, h.skip (by simp [Platform.targets, hhart, hid])⟩
      simp only [step, h.placed.primary, startCpu, hhart, hid, if_true, Outcome.map_next]
    . have htarget : p.targets [cpu] = [id] := by simp [Platform.targets, hhart, hid]
      have hsecondaries : p.secondaries = p.targets done ++ id :: p.targets cpus := by
        have hcons : cpu :: cpus = [cpu] ++ cpus := rfl
        rw [Platform.secondaries, hsplit, hcons, Platform.targets_append, Platform.targets_append,
          htarget]
        rfl
      have hmem : id ∈ p.secondaries := by simp [hsecondaries]
      have hnotMem : id ∉ p.targets done := by
        have hnodup := hboot.nodup
        rw [hsecondaries, List.nodup_append] at hnodup
        intro hdone
        exact hnodup.2.2 id hdone id List.mem_cons_self rfl
      have hstopped : m.pc id = .stopped := by
        by_contra hstarted
        exact hnotMem ((h.placed.started id hid).mp hstarted)
      obtain ⟨stack, kstacks, hkstacks⟩ : ∃ stack kstacks, m.kstacks = stack :: kstacks := by
        have hlen := hboot.kstacks
        rw [hsecondaries, List.length_append, List.length_cons] at hlen
        have hpos : 0 < m.kstacks.length := by
          rw [h.placed.kstacks, List.length_drop]
          omega
        exact List.exists_cons_of_length_pos hpos
      refine ⟨_, ?_, Function.update_self _ _ _, h.startHart htarget hnotMem hkstacks⟩
      simp only [step, h.placed.primary, startCpu, hhart, hid, if_false, hkstacks, hboot.harts id hmem,
        hstopped, and_self, if_true, Outcome.map_next]

theorem vmmInit_eq (hframe : p.rootFrame = true)
    (h : m.kernPageTable = some probed.bootTable ∨
      m.kernPageTable = none ∧ m.dev.bootTable = probed.bootTable)
    : m.vmmInit p i = .next
        { m with
          onKernPageTable := Function.update m.onKernPageTable i true
          kernPageTable := some probed.bootTable
        } := by
  rcases h with h | ⟨h, hprobed⟩
  . simp only [BootMachine.vmmInit, h]
  . simp only [BootMachine.vmmInit, h, hframe, if_true, hprobed]

theorem withRuntime_eq {runtime : CpuRuntime} (hpointer : m.pointer i = some (base + p.areaSize * i))
    (hbase : m.globalAreaBase = some base) (hnproc : m.nproc = some p.nproc) (hlt : i < p.nproc)
    : m.withRuntime p i runtime = .next
        { m with runtimes := Function.update m.runtimes (base + p.areaSize * i) runtime } := by
  have hle : p.areaSize * (i + 1) ≤ p.areaSize * p.nproc := Nat.mul_le_mul_left _ hlt
  rw [Nat.mul_add, Nat.mul_one] at hle
  have hinside : base ≤ base + p.areaSize * i ∧
      base + p.areaSize * i + p.areaSize ≤ base + p.areaSize * p.nproc := by omega
  simp only [withRuntime, hpointer, hbase, hnproc, Option.getD_some, hinside, and_self, if_true]

theorem Reached.vmmInit (hframe : p.rootFrame = true) (h : Reached p base probed regs done .vmmInit m)
    : Moves p base probed regs m p.primary done .runtimeInit .runtimeInit := by
  have hdev : m.dev = { probed with regs } := h.shared.dev
  have hprobed : m.dev.bootTable = probed.bootTable := by rw [hdev]
  have hcreate := vmmInit_eq (i := p.primary) hframe (.inr ⟨h.shared.kernPageTable, hprobed⟩)
  have hstep : m.step p p.primary = .next
      ({ m with
          onKernPageTable := Function.update m.onKernPageTable p.primary true
          kernPageTable := some probed.bootTable }.goto p.primary .runtimeInit) := by
    simp only [step, h.placed.primary, hcreate, Outcome.map_next]
  refine ⟨_, hstep, Function.update_self _ _ _, h.primary_move rfl rfl rfl rfl rfl (by decide) rfl
    (fun _ _ => rfl) (fun j hj => Function.update_of_ne hj _ _) (fun _ _ => rfl) ?_ ?_⟩
  . exact { h.shared with kernPageTable := rfl }
  . exact
      { h.local_primary with
        onKernPageTable := Function.update_self _ _ _ }

theorem Reached.withRuntime_primary (runtime : CpuRuntime) (hlt : p.primary < p.nproc)
    (h : Reached p base probed regs done pc m) (hpos : 3 < pc.phase)
    : m.withRuntime p p.primary runtime = .next
        { m with runtimes := Function.update m.runtimes (base + p.areaSize * p.primary) runtime } := by
  apply withRuntime_eq (h.local_primary.pointer.trans (if_pos hpos)) _ _ hlt
  . rw [h.shared.globalAreaBase, if_pos (by omega)]
  . rw [h.shared.nproc, if_pos (by omega)]

theorem Reached.runtimeInit (hlt : p.primary < p.nproc) (h : Reached p base probed regs done .runtimeInit m)
    : Moves p base probed regs m p.primary done .setReady .setReady := by
  have hregister := h.withRuntime_primary .registered hlt (by decide)
  have hstep : m.step p p.primary = .next
      ({ m with
          runtimes := Function.update m.runtimes (base + p.areaSize * p.primary) .registered }.goto
        p.primary .setReady) := by
    simp only [step, h.placed.primary, hregister, Outcome.map_next]
  refine ⟨_, hstep, Function.update_self _ _ _, h.primary_move rfl rfl rfl rfl rfl (by decide) rfl
    (fun _ _ => rfl) (fun _ _ => rfl) (fun j hj => Function.update_of_ne (area_ne hj) _ _) ?_ ?_⟩
  . exact { h.shared with }
  . exact
      { h.local_primary with
        runtime := Function.update_self _ _ _ }

theorem Reached.runtimeStart (hlt : p.primary < p.nproc) (h : Reached p base probed regs done .runtimeStart m)
    : Moves p base probed regs m p.primary done .primaryTask .primaryTask := by
  have hrun := h.withRuntime_primary .running hlt (by decide)
  have hstep : m.step p p.primary = .next
      ({ m with
          runtimes := Function.update m.runtimes (base + p.areaSize * p.primary) .running }.goto
        p.primary .primaryTask) := by
    simp only [step, h.placed.primary, hrun, if_true, Outcome.map_next]
  refine ⟨_, hstep, Function.update_self _ _ _, h.primary_move rfl rfl rfl rfl rfl (by decide) rfl
    (fun _ _ => rfl) (fun _ _ => rfl) (fun j hj => Function.update_of_ne (area_ne hj) _ _) ?_ ?_⟩
  . exact { h.shared with }
  . exact
      { h.local_primary with
        runtime := Function.update_self _ _ _ }

theorem Reached.counted_eq_zero (h : Reached p base probed regs done pc m) (hphase : pc.phase ≤ 11)
    : counted p m = 0 := by
  apply List.countP_eq_zero.mpr
  intro i _
  by_cases hi : i = p.primary
  . rw [hi, h.placed.primary]
    simpa using hphase
  . have hwait := h.placed.waiting hphase i hi
    simp only [decide_eq_true_eq]
    omega

theorem Reached.setReady (hnodup : p.secondaries.Nodup) (h : Reached p base probed regs done .setReady m)
    : Moves p base probed regs m p.primary done .runtimeStart .runtimeStart := by
  have hstate : m.bootState = .bootstrap := h.bootState
  have hstep : m.step p p.primary = .next
      ({ m with bootState := .ready 1 }.goto p.primary .runtimeStart) := by
    simp only [step, h.placed.primary, hstate, BootState.setReady]
  have hcounted : counted p ({ m with bootState := .ready 1 }.goto p.primary .runtimeStart) = 1 := by
    rw [counted_count hnodup List.mem_cons_self goto_pc (by simp [h.placed.primary, BootPc.phase])
      (by decide)]
    exact congrArg (· + 1) (h.counted_eq_zero (by decide))
  refine ⟨_, hstep, Function.update_self _ _ _, ?_, { h.shared with }, ?_, ?_⟩
  . exact h.placed.primary_move rfl rfl rfl rfl (fun _ => by decide) rfl
  . refine locals_move h.locals goto_pc (fun _ _ => rfl) (fun _ _ => rfl) (fun _ _ => rfl) ?_
    exact { h.local_primary with }
  . rw [hcounted]
    rfl

theorem Reached.primaryTask (h : Reached p base probed regs done .primaryTask m)
    : Steps p base probed regs m p.primary := by
  have hstate : m.bootState = .ready (counted p m) := h.bootState
  by_cases hall : counted p m = m.nprocValid.getD 0
  . have hstep : m.step p p.primary = .next (m.goto p.primary .task) := by
      simp only [step, h.placed.primary, hstate, hall, if_true]
    refine Moves.steps ⟨_, hstep, Function.update_self _ _ _, h.primary_move rfl rfl rfl rfl rfl
      (by decide) rfl (fun _ _ => rfl) (fun _ _ => rfl) (fun _ _ => rfl) { h.shared with } ?_⟩
    exact { h.local_primary with }
  . refine Moves.steps ⟨m, ?_, h.placed.primary, h⟩
    simp only [step, h.placed.primary, hstate, hall, if_false]

theorem Reached.primary_step (hboot : p.Bootable) (hanswers : Answers p base probed regs)
    (h : Reached p base probed regs done pc m)
    : Steps p base probed regs m p.primary := by
  obtain ⟨hareas, _, hroot, hprobe, hstrategy⟩ := hanswers
  cases pc with
  | stopped => exact absurd h.placed.ofPrimary (by decide)
  | waitReady => exact absurd h.placed.ofPrimary (by decide)
  | secondaryPointer => exact absurd h.placed.ofPrimary (by decide)
  | cpusInit => exact (h.cpusInit hboot.cpus).steps
  | percpuInit => exact (h.percpuInit hareas).steps
  | primaryPointer => exact h.primaryPointer.steps
  | probeAll => exact (h.probeAll hroot hprobe).steps
  | initStrategy => exact (h.initStrategy hroot hstrategy).steps
  | chosen => exact (h.chosen hboot.chosen).steps
  | secondaryBoot => exact h.secondaryBoot.steps
  | start cpus =>
    cases cpus with
    | nil => exact h.start_nil.steps
    | cons cpu cpus => exact (h.start_cons hboot).steps
  | vmmInit => exact (h.vmmInit hboot.rootFrame).steps
  | runtimeInit => exact (h.runtimeInit hboot.primary_lt).steps
  | setReady => exact (h.setReady hboot.nodup).steps
  | runtimeStart => exact (h.runtimeStart hboot.primary_lt).steps
  | primaryTask => exact h.primaryTask
  | task => exact .inl (.inr h.placed.primary)

theorem Reached.secondary_move (h : Reached p base probed regs done pc m) (hi : i ≠ p.primary)
    (hpos : 11 < pc.phase) (hpc : m'.pc = Function.update m.pc i pc') (hkstacks : m'.kstacks = m.kstacks)
    (hstack : m'.stack = m.stack) (hrole : pc'.ofSecondary = true) (hstarted : m.pc i ≠ .stopped)
    (hstarted' : pc' ≠ .stopped) (hpointer : ∀ j ≠ i, m'.pointer j = m.pointer j)
    (honKern : ∀ j ≠ i, m'.onKernPageTable j = m.onKernPageTable j)
    (hruntime : ∀ j ≠ i, m'.runtimes (base + p.areaSize * j) = m.runtimes (base + p.areaSize * j))
    (hshared : Shared p base probed regs pc m') (hlocal : Local p base pc' m' i)
    (hbootState : m'.bootState = .ready (counted p m'))
    : Reached p base probed regs done pc m' where
  placed := h.placed.secondary_move hi hpc hkstacks hstack hrole hpos hstarted hstarted'
  shared := hshared
  locals := locals_move h.locals hpc hpointer honKern hruntime hlocal
  bootState := by rw [hbootState, if_neg (by omega)]

section

variable (h : Reached p base probed regs done pc m) (hi : i ≠ p.primary)

include h

theorem Reached.local_secondary (hpc : m.pc i = pc') : Local p base pc' m i := by
  have hlocal := h.locals i
  rwa [hpc] at hlocal

theorem Reached.ready (hpos : 11 < pc.phase) : m.bootState = .ready (counted p m) := by
  rw [h.bootState, if_neg (by omega)]

theorem Reached.ready_move (hpos : 11 < pc.phase) (hpc : m'.pc = Function.update m.pc i pc')
    (hcounted : 11 < pc'.phase ↔ 11 < (m.pc i).phase)
    : m.bootState = .ready (counted p m') := by
  rw [h.ready hpos, counted_move hpc hcounted]

include hi

theorem Reached.ready_of_running (hrun : 1 < (m.pc i).phase) : 11 < pc.phase := by
  by_contra hlt
  have := h.placed.waiting (by omega) i hi
  omega

theorem Reached.mem_secondaries (hstarted : m.pc i ≠ .stopped) : i ∈ p.secondaries := by
  have hmem := (h.placed.started i hi).mp hstarted
  rw [Platform.secondaries, h.placed.split, Platform.targets_append]
  exact List.mem_append_left _ hmem

theorem Reached.withRuntime_secondary (runtime : CpuRuntime) (hlt : i < p.nproc)
    (hrun : 3 < (m.pc i).phase)
    : m.withRuntime p i runtime = .next
        { m with runtimes := Function.update m.runtimes (base + p.areaSize * i) runtime } := by
  have hpos := h.ready_of_running hi (by omega)
  apply withRuntime_eq ((h.locals i).pointer.trans (if_pos hrun)) _ _ hlt
  . rw [h.shared.globalAreaBase, if_pos (by omega)]
  . rw [h.shared.nproc, if_pos (by omega)]

theorem Reached.waitReady (hpos : 11 < pc.phase) (hpc : m.pc i = .waitReady)
    : Moves p base probed regs m i done pc .secondaryPointer := by
  have hstep : m.step p i = .next (m.goto i .secondaryPointer) := by
    simp only [step, hpc, h.ready hpos]
  refine ⟨_, hstep, Function.update_self _ _ _, h.secondary_move hi hpos rfl rfl rfl rfl (by simp [hpc])
    (by simp) (fun _ _ => rfl) (fun _ _ => rfl) (fun _ _ => rfl) { h.shared with } ?_ ?_⟩
  . exact { h.local_secondary hpc with }
  . exact h.ready_move hpos goto_pc (by simp [hpc, BootPc.phase])

theorem Reached.waitReady_step (hpc : m.pc i = .waitReady) : Steps p base probed regs m i := by
  by_cases hpos : 11 < pc.phase
  . exact (h.waitReady hi hpos hpc).steps
  . have hstate : m.bootState = .bootstrap := by rw [h.bootState, if_pos (by omega)]
    refine Moves.steps ⟨m, ?_, hpc, h⟩
    simp only [step, hpc, hstate]

theorem Reached.secondaryPointer (hpc : m.pc i = .secondaryPointer)
    : Moves p base probed regs m i done pc .vmmInit := by
  have hlocal := h.local_secondary hpc
  have hpos : 11 < pc.phase := h.ready_of_running hi (by simp [hpc, BootPc.phase])
  have hbase : m.globalAreaBase = some base := by rw [h.shared.globalAreaBase, if_pos (by omega)]
  have hstep : m.step p i = .next
      ({ m with pointer := Function.update m.pointer i (some (base + p.areaSize * i)) }.goto i
        .vmmInit) := by
    simp only [step, hpc, setLocalPointer, hbase, Outcome.map_next]
  refine ⟨_, hstep, Function.update_self _ _ _,
    h.secondary_move hi hpos rfl rfl rfl rfl (by simp [hpc]) (by simp)
    (fun j hj => Function.update_of_ne hj _ _) (fun _ _ => rfl) (fun _ _ => rfl) { h.shared with } ?_
    ?_⟩
  . exact { hlocal with pointer := Function.update_self _ _ _ }
  . exact h.ready_move hpos goto_pc (by simp [hpc, BootPc.phase])

theorem Reached.vmmInit_secondary (hframe : p.rootFrame = true) (hpc : m.pc i = .vmmInit)
    : Moves p base probed regs m i done pc .runtimeInit := by
  have hlocal := h.local_secondary hpc
  have hpos : 11 < pc.phase := h.ready_of_running hi (by simp [hpc, BootPc.phase])
  have hkern : m.kernPageTable = some probed.bootTable := by rw [h.shared.kernPageTable, if_pos (by omega)]
  have hstep : m.step p i = .next
      ({ m with
          onKernPageTable := Function.update m.onKernPageTable i true
          kernPageTable := some probed.bootTable }.goto i .runtimeInit) := by
    simp only [step, hpc, vmmInit_eq hframe (.inl hkern), Outcome.map_next]
  refine ⟨_, hstep, Function.update_self _ _ _,
    h.secondary_move hi hpos rfl rfl rfl rfl (by simp [hpc]) (by simp)
    (fun _ _ => rfl) (fun j hj => Function.update_of_ne hj _ _) (fun _ _ => rfl) ?_ ?_ ?_⟩
  . exact { h.shared with kernPageTable := hkern.symm.trans h.shared.kernPageTable }
  . exact
      { hlocal with
        onKernPageTable := Function.update_self _ _ _ }
  . exact h.ready_move hpos goto_pc (by simp [hpc, BootPc.phase])

theorem Reached.runtimeInit_secondary (hlt : i < p.nproc) (hpc : m.pc i = .runtimeInit)
    : Moves p base probed regs m i done pc .setReady := by
  have hlocal := h.local_secondary hpc
  have hpos : 11 < pc.phase := h.ready_of_running hi (by simp [hpc, BootPc.phase])
  have hregister := h.withRuntime_secondary hi .registered hlt (by simp [hpc, BootPc.phase])
  have hstep : m.step p i = .next
      ({ m with runtimes := Function.update m.runtimes (base + p.areaSize * i) .registered }.goto i
        .setReady) := by
    simp only [step, hpc, hregister, Outcome.map_next]
  refine ⟨_, hstep, Function.update_self _ _ _,
    h.secondary_move hi hpos rfl rfl rfl rfl (by simp [hpc]) (by simp)
    (fun _ _ => rfl) (fun _ _ => rfl) (fun j hj => Function.update_of_ne (area_ne hj) _ _)
    { h.shared with } ?_ ?_⟩
  . exact
      { hlocal with
        runtime := Function.update_self _ _ _ }
  . exact h.ready_move hpos goto_pc (by simp [hpc, BootPc.phase])

theorem Reached.runtimeStart_secondary (hlt : i < p.nproc) (hpc : m.pc i = .runtimeStart)
    : Moves p base probed regs m i done pc .task := by
  have hlocal := h.local_secondary hpc
  have hpos : 11 < pc.phase := h.ready_of_running hi (by simp [hpc, BootPc.phase])
  have hrun := h.withRuntime_secondary hi .running hlt (by simp [hpc, BootPc.phase])
  have hstep : m.step p i = .next
      ({ m with runtimes := Function.update m.runtimes (base + p.areaSize * i) .running }.goto i
        .task) := by
    simp only [step, hpc, hrun, hi, if_false, Outcome.map_next]
  refine ⟨_, hstep, Function.update_self _ _ _,
    h.secondary_move hi hpos rfl rfl rfl rfl (by simp [hpc]) (by simp)
    (fun _ _ => rfl) (fun _ _ => rfl) (fun j hj => Function.update_of_ne (area_ne hj) _ _)
    { h.shared with } ?_ ?_⟩
  . exact
      { hlocal with
        runtime := Function.update_self _ _ _ }
  . exact h.ready_move hpos goto_pc (by simp [hpc, BootPc.phase])

theorem Reached.setReady_secondary (hnodup : p.secondaries.Nodup) (hpc : m.pc i = .setReady)
    : Moves p base probed regs m i done pc .runtimeStart := by
  have hlocal := h.local_secondary hpc
  have hpos : 11 < pc.phase := h.ready_of_running hi (by simp [hpc, BootPc.phase])
  have hmem : i ∈ p.secondaries := h.mem_secondaries hi (by simp [hpc])
  have hstep : m.step p i = .next
      ({ m with bootState := .ready (counted p m + 1) }.goto i .runtimeStart) := by
    simp only [step, hpc, h.ready hpos, BootState.setReady]
  refine ⟨_, hstep, Function.update_self _ _ _,
    h.secondary_move hi hpos rfl rfl rfl rfl (by simp [hpc]) (by simp)
    (fun _ _ => rfl) (fun _ _ => rfl) (fun _ _ => rfl) { h.shared with } ?_ ?_⟩
  . exact { hlocal with }
  . refine congrArg BootState.ready (counted_count hnodup (List.mem_cons_of_mem _ hmem) goto_pc ?_ ?_).symm
    . exact (congrArg BootPc.phase hpc).le
    . decide

theorem Reached.secondary_step (hboot : p.Bootable) : Steps p base probed regs m i := by
  have hrole := h.placed.ofSecondary i hi
  have hlt (hstarted : m.pc i ≠ .stopped) : i < p.nproc :=
    hboot.secondaries_lt i (h.mem_secondaries hi hstarted)
  cases hpc : m.pc i with
  | stopped => exact .inl (.inl hpc)
  | task => exact .inl (.inr hpc)
  | waitReady => exact h.waitReady_step hi hpc
  | secondaryPointer => exact (h.secondaryPointer hi hpc).steps
  | vmmInit => exact (h.vmmInit_secondary hi hboot.rootFrame hpc).steps
  | runtimeInit => exact (h.runtimeInit_secondary hi (hlt (by simp [hpc])) hpc).steps
  | setReady => exact (h.setReady_secondary hi hboot.nodup hpc).steps
  | runtimeStart => exact (h.runtimeStart_secondary hi (hlt (by simp [hpc])) hpc).steps
  | _ => simp [hpc, BootPc.ofSecondary] at hrole

end

theorem step_of_idle (h : m.pc i = .stopped ∨ m.pc i = .task) : m.step p i = .disabled := by
  rcases h with h | h <;> simp only [BootMachine.step, h]

theorem reached_init (p : Platform arch) (base : Nat) (probed : DevState arch) (regs : PlicRegs arch)
    : Reached p base probed regs [] .cpusInit (init p) := by
  have hother (i : Nat) (hi : i ≠ p.primary) : (init p).pc i = .stopped := if_neg hi
  have hprimary : (init p).pc p.primary = .cpusInit := if_pos rfl
  refine ⟨⟨hprimary, rfl, ?_, ?_, ?_, rfl, rfl, ?_⟩, ⟨rfl, rfl, rfl, rfl, rfl⟩, ?_, rfl⟩
  . intro i hi
    rw [hother i hi]
    rfl
  . intro _ i hi
    rw [hother i hi]
    decide
  . intro i hi
    simp [hother i hi, Platform.targets]
  . simp [Platform.targets]
  . intro i
    by_cases hi : i = p.primary
    . rw [hi, hprimary]
      exact ⟨rfl, rfl, rfl⟩
    . rw [hother i hi]
      exact ⟨rfl, rfl, rfl⟩

theorem Reached.step (hboot : p.Bootable) (hanswers : Answers p base probed regs)
    (h : Reached p base probed regs done pc m) (i : Nat)
    : Steps p base probed regs m i := by
  by_cases hi : i = p.primary
  . rw [hi]
    exact h.primary_step hboot hanswers
  . exact h.secondary_step hi hboot

theorem Reached.next (hboot : p.Bootable) (hanswers : Answers p base probed regs)
    (h : Reached p base probed regs done pc m) (hstep : m.step p i = .next m')
    : ∃ done' pc', Reached p base probed regs done' pc' m' := by
  rcases h.step hboot hanswers i with hidle | ⟨done', pc', _, m'', hstep', _, h'⟩
  . rw [step_of_idle hidle] at hstep
    cases hstep
  . rw [hstep'] at hstep
    cases hstep
    exact ⟨done', pc', h'⟩

theorem exists_answers (hboot : p.Bootable) : ∃ base probed regs, Answers p base probed regs := by
  obtain ⟨base, hareas⟩ := hboot.areas
  obtain ⟨rootCompatible, probed, hroot, hprobe, hready⟩ := hboot.devices
  obtain ⟨_, regs, hstrategy⟩ | ⟨hnot, _⟩ := probed.initStrategy_cases rootCompatible p.primary
  . exact ⟨base, probed, regs, hareas, rootCompatible, hroot, hprobe, hstrategy⟩
  . exact absurd hready hnot

theorem exists_reached (hboot : p.Bootable) {as : List Nat}
    (hrun : Run (BootMachine.step p) (fun _ _ => True) (init p) as m)
    : ∃ base probed regs done pc, Answers p base probed regs ∧ Reached p base probed regs done pc m := by
  obtain ⟨base, probed, regs, hanswers⟩ := exists_answers hboot
  obtain ⟨done, pc, h⟩ := hrun.invariant (fun m => ∃ done pc, Reached p base probed regs done pc m)
    ⟨_, _, reached_init p base probed regs⟩ (by
      rintro s s' i ⟨done, pc, h⟩ _ hstep
      exact h.next hboot hanswers hstep)
  exact ⟨base, probed, regs, done, pc, hanswers, h⟩

theorem step_ne_panic (hboot : p.Bootable) {as : List Nat}
    (hrun : Run (BootMachine.step p) (fun _ _ => True) (init p) as m) (i : Nat)
    : m.step p i ≠ .panic := by
  obtain ⟨base, probed, regs, done, pc, hanswers, h⟩ := exists_reached hboot hrun
  rcases h.step hboot hanswers i with hidle | ⟨_, _, _, m', hstep, _⟩
  . simp [step_of_idle hidle]
  . simp [hstep]

end BootMachine

end Jrinx
