import Jrinx.Boot.Progress

/-!
This module contains what the harts of a bootable platform know of each other: what the counter of
`BOOT_STATE` counts, whose data a hart gets to through its pointer, that the loop of `primary_task`
ends only after all of them have counted themselves, and when it ends.
-/

namespace Jrinx

variable {arch : Arch} {p : Platform arch}

namespace Platform

def cpuIds (p : Platform arch) : List Nat :=
  p.validCpus.filterMap fun cpu =>
    match cpu.hartOf arch with
    | .hart id => some id
    | _ => none

theorem targets_eq (cpus : List CpuNode)
    : p.targets cpus =
        (cpus.filterMap fun cpu =>
          match cpu.hartOf arch with
          | .hart id => some id
          | _ => none).filter (fun id => decide (id ≠ p.primary)) := by
  induction cpus with
  | nil => rfl
  | cons cpu cpus ih =>
    unfold targets at ih ⊢
    cases hhart : cpu.hartOf arch with
    | parseError => simpa [List.filterMap_cons, hhart] using ih
    | «continue» => simpa [List.filterMap_cons, hhart] using ih
    | hart id =>
      by_cases hid : id = p.primary
      . simpa [List.filterMap_cons, hhart, hid] using ih
      . simpa [List.filterMap_cons, hhart, hid] using ih

theorem length_filter_ne {l : List Nat} {a : Nat} (hnodup : l.Nodup) (ha : a ∈ l)
    : (l.filter (fun b => decide (b ≠ a))).length + 1 = l.length := by
  have herase : l.filter (fun b => decide (b ≠ a)) = l.erase a := by
    rw [hnodup.erase_eq_filter]
    apply List.filter_congr
    intro b _
    by_cases hb : b = a <;> simp [hb]
  have hpos : 0 < l.length := List.length_pos_of_mem ha
  rw [herase, List.length_erase_of_mem ha]
  omega

theorem length_cpuIds_le : p.cpuIds.length ≤ p.nprocValid := List.length_filterMap_le _ _

section

variable (hmem : p.primary ∈ p.cpuIds)

include hmem

theorem nprocValid_pos : 0 < p.nprocValid :=
  Nat.lt_of_lt_of_le (List.length_pos_of_mem hmem) length_cpuIds_le

variable (hnodup : p.cpuIds.Nodup) (hparses : ∀ cpu ∈ p.startList, cpu.hartOf arch ≠ .parseError)

include hnodup hparses

theorem length_secondaries_iff
    : p.secondaries.length + 1 = p.nprocValid ↔ p.hsm = true ∨ p.nprocValid = 1 := by
  cases hhsm : p.hsm with
  | false =>
    have hnone : p.secondaries = [] := by simp [secondaries, startList, hhsm, targets]
    simp [hnone, eq_comm]
  | true =>
    have hlist : p.startList = p.validCpus := by simp [startList, hhsm]
    have hlength : p.cpuIds.length = p.nprocValid := by
      apply List.filterMap_length_eq_length.mpr
      intro cpu hcpu
      cases hhart : cpu.hartOf arch with
      | hart id => rfl
      | parseError => exact absurd hhart (hparses cpu (hlist ▸ hcpu))
      | «continue» =>
        exact absurd hhart (CpuNode.hartOf_ne_continue (List.mem_filter.mp hcpu).2)
    have hsecondaries : p.secondaries = p.cpuIds.filter (fun id => decide (id ≠ p.primary)) := by
      rw [secondaries, hlist, targets_eq]
      rfl
    rw [hsecondaries, length_filter_ne hnodup hmem, hlength]
    simp

theorem length_secondaries_le : p.secondaries.length + 1 ≤ p.nprocValid := by
  by_cases hall : p.secondaries.length + 1 = p.nprocValid
  . omega
  . have hhsm : p.hsm = false := by
      rw [length_secondaries_iff hmem hnodup hparses] at hall
      simpa using fun h => hall (.inl h)
    have hnone : p.secondaries = [] := by simp [secondaries, startList, hhsm, targets]
    have hpos := nprocValid_pos hmem
    rw [hnone, List.length_nil]
    omega

theorem mem_harts (hall : p.secondaries.length + 1 = p.nprocValid) {id : Nat} (hid : id ∈ p.cpuIds)
    : id ∈ p.primary :: p.secondaries := by
  rcases (length_secondaries_iff hmem hnodup hparses).mp hall with hhsm | hone
  . have hlist : p.startList = p.validCpus := by simp [startList, hhsm]
    by_cases hprimary : id = p.primary
    . rw [hprimary]
      exact List.mem_cons_self
    . apply List.mem_cons_of_mem
      rw [secondaries, hlist, targets_eq]
      exact List.mem_filter.mpr ⟨hid, by simpa using hprimary⟩
  . have hle : p.cpuIds.length ≤ p.nprocValid := length_cpuIds_le
    obtain ⟨a, ha⟩ := List.length_eq_one_iff.mp
      (show p.cpuIds.length = 1 from by have := List.length_pos_of_mem hmem; omega)
    rw [ha, List.mem_singleton] at hid hmem
    rw [hid, ← hmem]
    exact List.mem_cons_self

end

end Platform

namespace BootMachine

variable {base : Nat} {probed : DevState arch} {regs : PlicRegs arch} {done : List CpuNode} {pc pc' : BootPc}
  {m m' : BootMachine arch} {i j : Nat}

-- How the primary hart gets past the loop of `primary_task`.
theorem step_task (h : m.step p i = .next m') (htask : m'.pc p.primary = .task)
    : m.pc p.primary = .task ∨
        m.pc p.primary = .primaryTask ∧ ∀ count, m.bootState = .ready count →
          count = m.nprocValid.getD 0 := by
  by_cases hi : i = p.primary
  . subst hi
    obtain ⟨_, rfl⟩ | ⟨hblocked, hnext⟩ := step_own h
    . exact .inl htask
    . rw [hnext] at htask
      cases hpc : m.pc p.primary with
      | task => exact .inl rfl
      | primaryTask =>
        refine .inr ⟨rfl, fun count hcount => ?_⟩
        simpa [Blocked, hpc, hcount] using hblocked
      | start cpus => cases cpus <;> simp [hpc, nextPc] at htask
      | _ => simp [hpc, nextPc] at htask
  . rcases step_pc h (Ne.symm hi) with hsame | ⟨_, hwait⟩
    . rw [hsame] at htask
      exact .inl htask
    . rw [hwait] at htask
      cases htask

def Passed (p : Platform arch) (m : BootMachine arch) : Prop :=
  m.pc p.primary = .task → p.nprocValid ≤ counted p m

theorem Passed.step (h : Reached p base probed regs done pc m) (hpassed : Passed p m)
    (hstep : m.step p i = .next m')
    : Passed p m' := by
  intro htask
  refine Nat.le_trans ?_ (counted_le_of_step hstep)
  rcases step_task hstep htask with htask | ⟨hpc, hcount⟩
  . exact hpassed htask
  . have hpos : pc = .primaryTask := h.placed.primary.symm.trans hpc
    subst hpos
    have hnproc : m.nprocValid = some p.nprocValid := h.shared.nprocValid
    rw [hcount _ h.bootState, hnproc, Option.getD_some]

theorem passed (hboot : p.Bootable) {as : List Nat}
    (hrun : Run (BootMachine.step p) (fun _ _ => True) (init p) as m)
    : Passed p m := by
  obtain ⟨base, probed, regs, hanswers⟩ := exists_answers hboot
  refine (hrun.invariant (fun m => (∃ done pc, Reached p base probed regs done pc m) ∧ Passed p m)
    ⟨⟨_, _, reached_init p base probed regs⟩, ?_⟩ ?_).2
  . intro htask
    rw [(reached_init p base probed regs).placed.primary] at htask
    cases htask
  . rintro s s' i ⟨⟨done, pc, h⟩, hpassed⟩ _ hstep
    exact ⟨h.next hboot hanswers hstep, hpassed.step h hstep⟩

section

variable (hboot : p.Bootable) (hmem : p.primary ∈ p.cpuIds) (hnodup : p.cpuIds.Nodup)

include hboot hmem hnodup

/--
When the loop of `primary_task` has ended, every valid CPU has counted itself: it translates by the kernel
page table and has registered its root inspector in its own area.
-/
theorem rendezvous {as : List Nat} (hrun : Run (BootMachine.step p) (fun _ _ => True) (init p) as m)
    (htask : m.pc p.primary = .task)
    : m.bootState = .ready p.nprocValid ∧
        ∀ id ∈ p.cpuIds, m.onKernPageTable id = true ∧
          ∃ base, m.globalAreaBase = some base ∧ m.pointer id = some (base + p.areaSize * id) ∧
            m.runtimes (base + p.areaSize * id) ≠ .unused := by
  have hle := passed hboot hrun htask
  have hcounted := counted_le (p := p) m
  have hsecondaries := Platform.length_secondaries_le hmem hnodup hboot.parses
  obtain ⟨base, _, _, _, pc, _, h⟩ := exists_reached hboot hrun
  have hpc : pc = .task := h.placed.primary.symm.trans htask
  subst hpc
  have hall : counted p m = p.nprocValid := by omega
  refine ⟨hall ▸ h.bootState, fun id hid => ?_⟩
  have hharts := Platform.mem_harts hmem hnodup hboot.parses (by omega) hid
  have hphase : 11 < (m.pc id).phase := by
    have hlength : counted p m = (p.primary :: p.secondaries).length := by
      rw [List.length_cons]
      omega
    simpa using List.countP_eq_length.mp hlength id hharts
  refine ⟨?_, base, h.shared.globalAreaBase, ?_, ?_⟩
  . rw [(h.locals id).onKernPageTable, decide_eq_true_eq]
    omega
  . rw [(h.locals id).pointer, if_pos (by omega)]
  . rw [(h.locals id).runtime, BootPc.runtime, if_neg (by omega)]
    split <;> simp

end

theorem rendezvous_ofHarts_two
    : ∃ m : BootMachine .riscv64, m.pc 0 = .task ∧ m.bootState = .ready 2 ∧
        m.onKernPageTable 1 = true := by
  obtain ⟨_, m, hrun, hcompleted⟩ := exists_completed Platform.bootable_ofHarts_two (by decide)
  have htask : m.pc 0 = .task := hcompleted 0 (by decide)
  obtain ⟨hready, hall⟩ := rendezvous Platform.bootable_ofHarts_two (by decide) (by decide) hrun htask
  exact ⟨m, htask, hready, (hall 1 (by decide)).1⟩

end BootMachine

end Jrinx
