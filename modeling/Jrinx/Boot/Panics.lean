import Jrinx.Boot.Safety

/-!
This module contains the proof that a platform that boots without a panic is `Bootable`: wherever one of
the conditions fails the machine gets to the call that panics.
-/

namespace Jrinx

variable {arch : Arch} {p : Platform arch}

namespace BootMachine

variable {base : Nat} {probed : DevState arch} {regs : PlicRegs arch} {done done' : List CpuNode} {pc pc' : BootPc}
  {m m' : BootMachine arch} {i : Nat}

def Safe (p : Platform arch) (m : BootMachine arch) : Prop :=
  ∀ as m', Run (BootMachine.step p) (fun _ _ => True) m as m' → ∀ i, m'.step p i ≠ .panic

theorem Safe.here (h : Safe p m) (i : Nat) : m.step p i ≠ .panic := h [] m (.nil m) i

theorem Safe.next (h : Safe p m) (hstep : m.step p i = .next m') : Safe p m' :=
  fun as m'' hrun => h (i :: as) m'' (.cons trivial hstep hrun)

-- The primary hart gets to `pc`.
def GetsTo (p : Platform arch) (base : Nat) (probed : DevState arch) (regs : PlicRegs arch) (done : List CpuNode)
    (pc : BootPc) : Prop :=
  ∃ m, Safe p m ∧ Reached p base probed regs done pc m

theorem GetsTo.move (h : GetsTo p base probed regs done pc)
    (hmove : ∀ m, Reached p base probed regs done pc m → Moves p base probed regs m p.primary done' pc' pc')
    : GetsTo p base probed regs done' pc' := by
  obtain ⟨m, hsafe, hreached⟩ := h
  obtain ⟨m', hstep, _, hreached'⟩ := hmove m hreached
  exact ⟨m', hsafe.next hstep, hreached'⟩

theorem GetsTo.init (h : Safe p (init p)) : GetsTo p base probed regs [] .cpusInit :=
  ⟨_, h, reached_init p base probed regs⟩

theorem GetsTo.cpus (h : GetsTo p base probed regs done .cpusInit)
    : ∃ node freq, p.cpus = some node ∧ node.timebaseFrequency = some (some freq) := by
  obtain ⟨m, hsafe, hreached⟩ := h
  have hne := hsafe.here p.primary
  simp only [step, hreached.placed.primary, BootMachine.cpusInit] at hne
  split at hne
  . simp at hne
  . next node hnode =>
    split at hne
    . next freq hfreq => exact ⟨node, freq, hnode, hfreq⟩
    . simp at hne

theorem GetsTo.areas (h : GetsTo p base probed regs done .percpuInit)
    : ∃ base, p.allocateZeroed (p.areaSize * p.nproc) = some base := by
  obtain ⟨m, hsafe, hreached⟩ := h
  have hne := hsafe.here p.primary
  have hnproc : m.nproc = some p.nproc := hreached.shared.nproc
  simp only [step, hreached.placed.primary, BootMachine.percpuInit, hnproc, Option.getD_some] at hne
  split at hne
  . simp at hne
  . next base hbase => exact ⟨base, hbase⟩

theorem GetsTo.probe (h : GetsTo p base probed regs done .probeAll)
    : ∃ rootCompatible probed, p.rootCompatible = some rootCompatible ∧ p.probed = .next probed := by
  obtain ⟨m, hsafe, hreached⟩ := h
  have hne := hsafe.here p.primary
  have hdev : m.dev = p.devState := hreached.shared.dev
  simp only [step, hreached.placed.primary, BootMachine.probeAll, hdev] at hne
  split at hne
  . simp at hne
  . next rootCompatible hroot =>
    refine ⟨rootCompatible, ?_⟩
    cases hprobe : p.probed with
    | next probed => exact ⟨probed, hroot, rfl⟩
    | panic =>
      rw [Platform.probed] at hprobe
      simp [hprobe] at hne
    | disabled => exact absurd hprobe (probeAllDevice_ne_disabled _ _ _ _ _)

theorem GetsTo.chosen (h : GetsTo p base probed regs done .chosen) : p.chosen = true := by
  obtain ⟨m, hsafe, hreached⟩ := h
  have hne := hsafe.here p.primary
  simp only [step, hreached.placed.primary] at hne
  by_contra hchosen
  simp [hchosen] at hne

theorem GetsTo.rootFrame (h : GetsTo p base probed regs done .vmmInit) : p.rootFrame = true := by
  obtain ⟨m, hsafe, hreached⟩ := h
  have hne := hsafe.here p.primary
  have hkern : m.kernPageTable = none := hreached.shared.kernPageTable
  simp only [step, hreached.placed.primary, BootMachine.vmmInit, hkern] at hne
  by_contra hframe
  simp [hframe] at hne

theorem lt_of_withRuntime {runtime : CpuRuntime} (hpointer : m.pointer i = some (base + p.areaSize * i))
    (hbase : m.globalAreaBase = some base) (hnproc : m.nproc = some p.nproc)
    (h : m.withRuntime p i runtime ≠ .panic)
    : i < p.nproc := by
  by_contra hlt
  have hle : p.areaSize * p.nproc ≤ p.areaSize * i := Nat.mul_le_mul_left _ (by omega)
  have hpos := p.areaSize_pos
  have hoff : ¬ (base ≤ base + p.areaSize * i ∧
      base + p.areaSize * i + p.areaSize ≤ base + p.areaSize * p.nproc) := by omega
  simp only [withRuntime, hpointer, hbase, hnproc, Option.getD_some, hoff, if_false] at h
  exact h rfl

theorem map_ne_panic {o : Outcome (BootMachine arch)} {f : BootMachine arch → BootMachine arch}
    (h : o.map f ≠ .panic)
    : o ≠ .panic := by
  rintro rfl
  exact h rfl

theorem GetsTo.primary_lt (h : GetsTo p base probed regs done .runtimeInit) : p.primary < p.nproc := by
  obtain ⟨m, hsafe, hreached⟩ := h
  have hne := hsafe.here p.primary
  simp only [step, hreached.placed.primary] at hne
  exact lt_of_withRuntime hreached.local_primary.pointer hreached.shared.globalAreaBase
    hreached.shared.nproc (map_ne_panic hne)

structure Startable (p : Platform arch) (cpus : List CpuNode) : Prop where
  parses : ∀ cpu ∈ cpus, cpu.hartOf arch ≠ .parseError
  harts : ∀ id ∈ p.targets cpus, id ∈ p.harts
  nodup : (p.targets cpus).Nodup
  kstacks : (p.targets cpus).length ≤ p.kstacks.length

theorem Startable.skip {cpu : CpuNode} (h : Startable p done) (hparse : cpu.hartOf arch ≠ .parseError)
    (htarget : p.targets [cpu] = [])
    : Startable p (done ++ [cpu]) := by
  have htargets : p.targets (done ++ [cpu]) = p.targets done := by
    rw [Platform.targets_append, htarget, List.append_nil]
  refine ⟨?_, htargets ▸ h.harts, htargets ▸ h.nodup, htargets ▸ h.kstacks⟩
  intro c hc
  rcases List.mem_append.mp hc with hc | hc
  . exact h.parses c hc
  . rwa [List.mem_singleton.mp hc]

theorem Startable.start {cpu : CpuNode} {id : Nat} (h : Startable p done)
    (hparse : cpu.hartOf arch ≠ .parseError) (htarget : p.targets [cpu] = [id]) (hhart : id ∈ p.harts)
    (hnotMem : id ∉ p.targets done) (hlt : (p.targets done).length < p.kstacks.length)
    : Startable p (done ++ [cpu]) := by
  have htargets : p.targets (done ++ [cpu]) = p.targets done ++ [id] := by
    rw [Platform.targets_append, htarget]
  refine ⟨?_, ?_, ?_, ?_⟩
  . intro c hc
    rcases List.mem_append.mp hc with hc | hc
    . exact h.parses c hc
    . rwa [List.mem_singleton.mp hc]
  . intro j hj
    rw [htargets, List.mem_append, List.mem_singleton] at hj
    rcases hj with hj | rfl
    . exact h.harts j hj
    . exact hhart
  . rw [htargets, List.nodup_append]
    refine ⟨h.nodup, by simp, ?_⟩
    rintro j hj k hk rfl
    exact hnotMem (List.mem_singleton.mp hk ▸ hj)
  . rw [htargets, List.length_append, List.length_singleton]
    omega

theorem GetsTo.start_cons {cpu : CpuNode} {cpus : List CpuNode}
    (h : GetsTo p base probed regs done (.start (cpu :: cpus))) (hdone : Startable p done)
    : GetsTo p base probed regs (done ++ [cpu]) (.start cpus) ∧ Startable p (done ++ [cpu]) := by
  obtain ⟨m, hsafe, hreached⟩ := h
  have hne := hsafe.here p.primary
  have hprimary := hreached.placed.primary
  cases hhart : cpu.hartOf arch with
  | parseError => simp [step, hprimary, startCpu, hhart] at hne
  | «continue» =>
    have htarget : p.targets [cpu] = [] := by simp [Platform.targets, hhart]
    refine ⟨⟨_, hsafe.next (i := p.primary) ?_, hreached.skip htarget⟩,
      hdone.skip (by simp [hhart]) htarget⟩
    simp only [step, hprimary, startCpu, hhart, Outcome.map_next]
  | hart id =>
    by_cases hid : id = p.primary
    . have htarget : p.targets [cpu] = [] := by simp [Platform.targets, hhart, hid]
      refine ⟨⟨_, hsafe.next (i := p.primary) ?_, hreached.skip htarget⟩,
        hdone.skip (by simp [hhart]) htarget⟩
      simp only [step, hprimary, startCpu, hhart, hid, if_true, Outcome.map_next]
    . have htarget : p.targets [cpu] = [id] := by simp [Platform.targets, hhart, hid]
      cases hkstacks : m.kstacks with
      | nil => simp [step, hprimary, startCpu, hhart, hid, hkstacks] at hne
      | cons stack kstacks =>
        by_cases hstart : id ∈ p.harts ∧ m.pc id = .stopped
        . have hnotMem : id ∉ p.targets done := by
            rw [← hreached.placed.started id hid]
            simp [hstart.2]
          have hlt : (p.targets done).length < p.kstacks.length := by
            have hlen := congrArg List.length (hreached.placed.kstacks.symm.trans hkstacks)
            rw [List.length_drop, List.length_cons] at hlen
            omega
          refine ⟨⟨_, hsafe.next (i := p.primary) ?_, hreached.startHart htarget hnotMem hkstacks⟩,
            hdone.start (by simp [hhart]) htarget hstart.1 hnotMem hlt⟩
          simp only [step, hprimary, startCpu, hhart, hid, if_false, hkstacks, hstart, and_self, if_true,
            Outcome.map_next]
        . simp [step, hprimary, startCpu, hhart, hid, hkstacks, hstart] at hne

theorem GetsTo.start {cpus : List CpuNode} (h : GetsTo p base probed regs done (.start cpus))
    (hdone : Startable p done)
    : GetsTo p base probed regs (done ++ cpus) (.start []) ∧ Startable p (done ++ cpus) := by
  induction cpus generalizing done with
  | nil => simpa using ⟨h, hdone⟩
  | cons cpu cpus ih =>
    obtain ⟨h', hdone'⟩ := h.start_cons hdone
    have hrest := ih h' hdone'
    rwa [List.append_assoc] at hrest

end BootMachine

namespace BootMachine

end BootMachine

/--
The CPUs `0` to `n - 1` with their nodes named after their hexadecimal unit addresses, and all that is
needed to boot them.
-/
structure Platform.Regular (p : Platform arch) (n : Nat) : Prop where
  cpus : ∃ freq, p.cpus = some
    { timebaseFrequency := some (some freq), children := (List.range n).map CpuNode.ofHart }
  hsm : p.hsm = true
  primary_lt : p.primary < n
  harts : ∀ id < n, id ∈ p.harts
  areas : ∃ base, p.allocateZeroed (p.areaSize * n) = some base
  devices : p.DevicesReady
  chosen : p.chosen = true
  kstacks : n ≤ p.kstacks.length + 1
  rootFrame : p.rootFrame = true

namespace Platform.Regular

variable {n : Nat} (h : p.Regular n)

include h

theorem children_eq : p.children = (List.range n).map CpuNode.ofHart := by
  obtain ⟨freq, hcpus⟩ := h.cpus
  simp [children, hcpus]

theorem nproc_eq : p.nproc = n := by
  have hall : ((List.range n).map CpuNode.ofHart).filter CpuNode.isCpu = (List.range n).map CpuNode.ofHart := by
    apply List.filter_eq_self.mpr
    simp [CpuNode.ofHart, CpuNode.isCpu]
  rw [nproc, h.children_eq, hall, List.length_map, List.length_range]

theorem startList_eq : p.startList = (List.range n).map CpuNode.ofHart := by
  rw [startList, if_pos h.hsm, validCpus, h.children_eq]
  apply List.filter_eq_self.mpr
  simp [CpuNode.ofHart, CpuNode.isValidCpu, CpuNode.isCpu]

theorem secondaries_eq (hle : n ≤ 10)
    : p.secondaries = (List.range n).filter (fun id => decide (id ≠ p.primary)) := by
  rw [secondaries, h.startList_eq, targets, List.filterMap_map, ← List.filterMap_eq_filter]
  apply List.filterMap_congr
  intro id hid
  have hhart : (CpuNode.ofHart id).hartOf arch = .hart id := by
    rw [CpuNode.hartOf_ofHart_iff]
    have := List.mem_range.mp hid
    omega
  simp only [Function.comp_apply, hhart]
  by_cases hprimary : id = p.primary <;> simp [hprimary, Option.guard]

theorem bootable_iff : p.Bootable ↔ n ≤ 10 := by
  constructor
  . intro hboot
    by_contra hlt
    have hmem : CpuNode.ofHart 10 ∈ p.startList := by
      rw [h.startList_eq]
      exact List.mem_map_of_mem (List.mem_range.mpr (by omega))
    cases arch with
    | riscv32 => exact hboot.parses _ hmem (by decide)
    | riscv64 => exact hboot.parses _ hmem (by decide)
  . intro hle
    have hmem {id : Nat} (hid : id ∈ p.secondaries) : id < n ∧ id ≠ p.primary := by
      rw [h.secondaries_eq hle, List.mem_filter, List.mem_range] at hid
      exact ⟨hid.1, by simpa using hid.2⟩
    obtain ⟨freq, hcpus⟩ := h.cpus
    refine ⟨⟨_, freq, hcpus, rfl⟩, h.nproc_eq ▸ h.areas, h.nproc_eq ▸ h.primary_lt, h.devices, h.chosen,
      ?_, ?_, ?_, ?_, ?_, h.rootFrame⟩
    . intro cpu hcpu
      rw [h.startList_eq, List.mem_map] at hcpu
      obtain ⟨id, hid, rfl⟩ := hcpu
      have hhart : (CpuNode.ofHart id).hartOf arch = .hart id := by
        rw [CpuNode.hartOf_ofHart_iff]
        have := List.mem_range.mp hid
        omega
      simp [hhart]
    . exact fun id hid => h.harts id (hmem hid).1
    . exact fun id hid => h.nproc_eq ▸ (hmem hid).1
    . rw [h.secondaries_eq hle]
      exact List.nodup_range.filter _
    . have hlt : p.secondaries.length < n := by
        rw [h.secondaries_eq hle]
        calc
          _ < (List.range n).length := by
            rw [List.length_filter_lt_length_iff_exists]
            exact ⟨p.primary, List.mem_range.mpr h.primary_lt, by simp⟩
          _ = n := List.length_range
      have := h.kstacks
      omega

end Platform.Regular

def Platform.ofHarts (n : Nat) : Platform .riscv64 where
  primary := 0
  cpus := some
    { timebaseFrequency := some (some 10000000), children := (List.range n).map CpuNode.ofHart }
  rootCompatible := some .riscvVirtio
  nodes := VirtTree.nodes
  chosen := true
  probers := VirtTree.probers
  sort := SortUnstable.insertionSort _
  kernelEnd := VirtTree.kernelEnd
  bootTable := VirtTree.start.bootTable
  regs := VirtTree.start.regs
  areaSize := 64
  areaSize_pos := by decide
  allocateZeroed := fun _ => some 0xFFFFFFC080400000
  kstacks := (List.range n).map fun i => 0xFFFFFFC080800000 + i * 0x200000
  rootFrame := true
  harts := List.range n
  hsm := true

theorem Platform.regular_ofHarts {n : Nat} (hpos : 0 < n) : (ofHarts n).Regular n where
  cpus := ⟨_, rfl⟩
  hsm := rfl
  primary_lt := hpos
  harts _ hid := List.mem_range.mpr hid
  areas := ⟨_, rfl⟩
  devices := by
    obtain ⟨probed, hprobe, hready⟩ := VirtTree.exists_strategyReady
    exact ⟨.riscvVirtio, probed, rfl, hprobe, hready⟩
  chosen := rfl
  kstacks := by simp [ofHarts]
  rootFrame := rfl

theorem Platform.bootable_ofHarts_two : (ofHarts 2).Bootable :=
  (regular_ofHarts (n := 2) (by decide)).bootable_iff.mpr (by decide)

end Jrinx
