import Jrinx.Boot.Panics
import Jrinx.Util.Schedule

/-!
This module contains the proof that the boot is completed under every fair schedule of the harts when there
is a hart for every valid CPU: the way of every hart only gets shorter, and as long as one of them is not in
its task there is a hart that neither waits for `BOOT_STATE` nor for the others.
-/

namespace Jrinx

variable {arch : Arch} {p : Platform arch}

namespace BootMachine

variable {base : Nat} {probed : DevState arch} {regs : PlicRegs arch} {done : List CpuNode} {pc pc' : BootPc}
  {m m' : BootMachine arch} {i j : Nat}

def left (p : Platform arch) (pc : BootPc) : Nat := 14 - pc.phase + (pc.unstarted p.startList).length

def rank (p : Platform arch) (m : BootMachine arch) : Nat :=
  ((p.primary :: p.secondaries).map fun i => left p (m.pc i)).sum

-- The next step of the hart does nothing, or there is none.
def Blocked (m : BootMachine arch) (i : Nat) : Prop :=
  match m.pc i with
  | .stopped => True
  | .task => True
  | .waitReady => m.bootState = .bootstrap
  | .primaryTask => ∃ count, m.bootState = .ready count ∧ count ≠ m.nprocValid.getD 0
  | _ => False

theorem left_le_two_iff : left p pc ≤ 2 ↔ 11 < pc.phase := by
  cases pc <;> simp [left, BootPc.phase, BootPc.unstarted] <;> omega

-- Where the next step takes a hart that is at `pc`, unless it waits there.
def nextPc (p : Platform arch) (i : Nat) (pc : BootPc) : BootPc :=
  match pc with
  | .stopped => .stopped
  | .cpusInit => .percpuInit
  | .percpuInit => .primaryPointer
  | .primaryPointer => .probeAll
  | .probeAll => .initStrategy
  | .initStrategy => .chosen
  | .chosen => .secondaryBoot
  | .secondaryBoot => .start p.startList
  | .start [] => .vmmInit
  | .start (_ :: cpus) => .start cpus
  | .waitReady => .secondaryPointer
  | .secondaryPointer => .vmmInit
  | .vmmInit => .runtimeInit
  | .runtimeInit => .setReady
  | .setReady => .runtimeStart
  | .runtimeStart => if i = p.primary then .primaryTask else .task
  | .primaryTask => .task
  | .task => .task

theorem step_own (h : m.step p i = .next m')
    : Blocked m i ∧ m' = m ∨ ¬ Blocked m i ∧ m'.pc i = nextPc p i (m.pc i) := by
  have hmap {o : Outcome (BootMachine arch)} {pc : BootPc} (ho : o.map (·.goto i pc) = .next m')
      : m'.pc i = pc := by
    obtain ⟨n, _, rfl⟩ := Outcome.map_eq_next ho
    rw [goto_pc, Function.update_self]
  have hgoto {n : BootMachine arch} {pc : BootPc} (hn : n.goto i pc = m') : m'.pc i = pc := by
    rw [← hn, goto_pc, Function.update_self]
  cases hpc : m.pc i with
  | stopped | task => simp [step, hpc] at h
  | cpusInit | percpuInit | primaryPointer | probeAll | initStrategy | secondaryPointer | vmmInit | runtimeInit
  | runtimeStart =>
    simp only [step, hpc] at h
    exact .inr ⟨by simp [Blocked, hpc], hmap h⟩
  | secondaryBoot | setReady =>
    simp only [step, hpc] at h
    exact .inr ⟨by simp [Blocked, hpc], hgoto (Outcome.next.inj h)⟩
  | chosen =>
    simp only [step, hpc] at h
    split at h
    . exact .inr ⟨by simp [Blocked, hpc], hgoto (Outcome.next.inj h)⟩
    . simp at h
  | start cpus =>
    cases cpus with
    | nil =>
      simp only [step, hpc] at h
      exact .inr ⟨by simp [Blocked, hpc], hgoto (Outcome.next.inj h)⟩
    | cons cpu cpus =>
      simp only [step, hpc] at h
      exact .inr ⟨by simp [Blocked, hpc], hmap h⟩
  | waitReady =>
    simp only [step, hpc] at h
    split at h
    . next hstate => exact .inl ⟨by simpa [Blocked, hpc] using hstate, (Outcome.next.inj h).symm⟩
    . next hstate => exact .inr ⟨by simp [Blocked, hpc, hstate], hgoto (Outcome.next.inj h)⟩
  | primaryTask =>
    simp only [step, hpc] at h
    split at h
    . next hstate => exact .inr ⟨by simp [Blocked, hpc, hstate], hgoto (Outcome.next.inj h)⟩
    . next count hstate =>
      split at h
      . next hcount => exact .inr ⟨by simp [Blocked, hpc, hstate, hcount], hgoto (Outcome.next.inj h)⟩
      . next hcount => exact .inl ⟨by simp [Blocked, hpc, hstate, hcount], (Outcome.next.inj h).symm⟩

theorem left_nextPc_lt (hstopped : pc ≠ .stopped) (htask : pc ≠ .task) : left p (nextPc p i pc) < left p pc := by
  cases pc with
  | stopped => exact absurd rfl hstopped
  | task => exact absurd rfl htask
  | start cpus => cases cpus <;> simp [nextPc, left, BootPc.phase, BootPc.unstarted]
  | secondaryPointer => simp [nextPc, left, BootPc.phase, BootPc.unstarted]; omega
  | runtimeStart =>
    simp only [nextPc]
    split <;> simp [left, BootPc.phase, BootPc.unstarted]
  | _ => simp [nextPc, left, BootPc.phase, BootPc.unstarted]

theorem not_idle_of_unblocked (hblocked : ¬ Blocked m i) : ¬ (m.pc i = .stopped ∨ m.pc i = .task) := by
  rintro (hpc | hpc) <;> exact hblocked (by simp [Blocked, hpc])

theorem step_self (h : m.step p i = .next m')
    : Blocked m i ∧ m' = m ∨ left p (m'.pc i) < left p (m.pc i) := by
  obtain hblocked | ⟨hblocked, hnext⟩ := step_own h
  . exact .inl hblocked
  . obtain ⟨hstopped, htask⟩ := not_or.mp (not_idle_of_unblocked hblocked)
    rw [hnext]
    exact .inr (left_nextPc_lt hstopped htask)

theorem left_waitReady_lt : left p .waitReady < left p .stopped := by
  simp [left, BootPc.phase, BootPc.unstarted]

theorem left_le_of_step (h : m.step p i = .next m') (j : Nat) : left p (m'.pc j) ≤ left p (m.pc j) := by
  by_cases hji : j = i
  . subst hji
    rcases step_self h with ⟨_, rfl⟩ | hlt
    . exact Nat.le_refl _
    . exact hlt.le
  . rcases step_pc h hji with hsame | ⟨hstopped, hwait⟩
    . rw [hsame]
    . rw [hstopped, hwait]
      exact left_waitReady_lt.le

theorem counted_le_of_step (h : m.step p i = .next m') : counted p m ≤ counted p m' := by
  unfold counted
  apply List.countP_mono_left
  intro j _ hj
  rw [decide_eq_true_eq, ← left_le_two_iff (p := p)] at hj ⊢
  exact (left_le_of_step h j).trans hj

theorem counted_le (m : BootMachine arch) : counted p m ≤ p.secondaries.length + 1 := List.countP_le_length

theorem rank_le_of_step (h : m.step p i = .next m') : rank p m' ≤ rank p m :=
  List.sum_le_sum fun j _ => left_le_of_step h j

theorem rank_lt_of_step (h : m.step p i = .next m') (hi : i ∈ p.primary :: p.secondaries)
    (hblocked : ¬ Blocked m i)
    : rank p m' < rank p m := by
  apply List.sum_lt_sum
  . intro j _
    exact left_le_of_step h j
  . refine ⟨i, hi, ?_⟩
    rcases step_self h with ⟨hb, _⟩ | hlt
    . exact absurd hb hblocked
    . exact hlt

-- Every hart runs its task, and the loop of `primary_task` has ended.
def Completed (p : Platform arch) (m : BootMachine arch) : Prop :=
  ∀ i ∈ p.primary :: p.secondaries, m.pc i = .task

theorem Reached.exists_unblocked (h : Reached p base probed regs done pc m)
    (hall : p.secondaries.length + 1 = p.nprocValid)
    (hgoal : ¬ Completed p m)
    : ∃ i, i ∈ p.primary :: p.secondaries ∧ ¬ Blocked m i := by
  by_contra hnone
  have hblocked : ∀ i ∈ p.primary :: p.secondaries, Blocked m i := by
    intro i hi
    by_contra hi'
    exact hnone ⟨i, hi, hi'⟩
  have hprimary := hblocked p.primary List.mem_cons_self
  have hpc := h.placed.primary
  have hrole := h.placed.ofPrimary
  have hlast : pc = .primaryTask ∨ pc = .task := by
    cases pc <;> simp_all [Blocked, BootPc.ofPrimary]
  have hpos : 11 < pc.phase := by
    rcases hlast with rfl | rfl <;> decide
  -- All secondary harts have been started, and none of them waits any more.
  have htask : ∀ i ∈ p.secondaries, m.pc i = .task := by
    intro i hi
    have hne : i ≠ p.primary := by
      rintro rfl
      exact Platform.primary_notMem_targets _ hi
    have hsplit : p.startList = done := by
      have := h.placed.split
      rcases hlast with rfl | rfl <;> simpa [BootPc.unstarted, BootPc.phase] using this
    have hstarted := (h.placed.started i hne).mpr (hsplit ▸ hi)
    have hi' := hblocked i (List.mem_cons_of_mem _ hi)
    have hready := h.ready hpos
    have hrole := h.placed.ofSecondary i hne
    cases hpci : m.pc i <;> simp_all [Blocked, BootPc.ofSecondary]
  have hwait : pc = .primaryTask := by
    rcases hlast with hwait | rfl
    . exact hwait
    . refine absurd (fun i hi => ?_) hgoal
      rcases List.mem_cons.mp hi with rfl | hi
      . exact hpc
      . exact htask i hi
  subst hwait
  have hcounted : counted p m = p.nprocValid := by
    rw [← hall, ← List.length_cons, counted, List.countP_eq_length]
    intro i hi
    rcases List.mem_cons.mp hi with rfl | hi
    . simp [hpc, BootPc.phase]
    . simp [htask i hi, BootPc.phase]
  have hnproc : m.nprocValid = some p.nprocValid := h.shared.nprocValid
  simp only [Blocked, hpc] at hprimary
  obtain ⟨count, hcount, hne⟩ := hprimary
  rw [h.ready hpos, hcounted] at hcount
  rw [hnproc, Option.getD_some] at hne
  cases hcount
  exact hne rfl

theorem Reached.unblocked_stay {done' : List CpuNode} (h : Reached p base probed regs done pc m)
    (h' : Reached p base probed regs done' pc' m') (hall : p.secondaries.length + 1 = p.nprocValid)
    (hstep : m.step p j = .next m') (hj : j ≠ i) (hblocked : ¬ Blocked m i)
    : ¬ Blocked m' i := by
  have hidle := not_idle_of_unblocked hblocked
  have hpc : m'.pc i = m.pc i := step_pc_of_ne hstep (Ne.symm hj) fun hstopped => hidle (.inl hstopped)
  have hcounted := counted_le_of_step hstep
  cases hpci : m.pc i with
  | waitReady =>
    have hpos : 11 < pc.phase := by
      by_contra hlt
      exact hblocked (by simp [Blocked, hpci, h.bootState, if_pos (show pc.phase ≤ 11 by omega)])
    have hpos' : 11 < pc'.phase := by
      have hleft := left_le_of_step hstep p.primary
      rw [h.placed.primary, h'.placed.primary] at hleft
      rw [← left_le_two_iff (p := p)] at hpos ⊢
      omega
    simp [Blocked, hpc, hpci, h'.ready hpos']
  | primaryTask =>
    have hi : i = p.primary := by
      by_contra hi
      have hrole := h.placed.ofSecondary i hi
      rw [hpci] at hrole
      cases hrole
    subst hi
    have hpos : pc = .primaryTask := h.placed.primary.symm.trans hpci
    have hpos' : pc' = .primaryTask := h'.placed.primary.symm.trans (hpc.trans hpci)
    subst hpos hpos'
    have hnproc : m.nprocValid = some p.nprocValid := h.shared.nprocValid
    have hnproc' : m'.nprocValid = some p.nprocValid := h'.shared.nprocValid
    have hcount : counted p m = p.nprocValid := by
      by_contra hne
      exact hblocked (by
        simp only [Blocked, hpci, h.ready (show 11 < 13 by decide), hnproc, Option.getD_some]
        exact ⟨_, rfl, hne⟩)
    have hle := counted_le (p := p) m'
    simp only [Blocked, hpc, hpci, h'.ready (show 11 < 13 by decide), hnproc', Option.getD_some]
    rintro ⟨count, hcount', hne⟩
    cases hcount'
    omega
  | stopped => exact absurd (.inl hpci) hidle
  | task => exact absurd (.inr hpci) hidle
  | _ => simp [Blocked, hpc, hpci]

def Sound (p : Platform arch) (m : BootMachine arch) : Prop :=
  ∃ base probed regs done pc, Answers p base probed regs ∧ Reached p base probed regs done pc m

theorem helpful (hboot : p.Bootable) (hall : p.secondaries.length + 1 = p.nprocValid)
    : Schedule.Helpful (BootMachine.step p) (Sound p) (rank p)
        (fun m i => i ∈ p.primary :: p.secondaries ∧ ¬ Blocked m i) where
  le _ hstep := rank_le_of_step hstep
  lower := by
    rintro m i ⟨base, probed, regs, done, pc, hanswers, h⟩ ⟨hi, hblocked⟩
    rcases h.step hboot hanswers i with hidle | ⟨_, _, _, m', hstep, _⟩
    . exact absurd hidle (not_idle_of_unblocked hblocked)
    . exact ⟨m', hstep, rank_lt_of_step hstep hi hblocked⟩
  stay := by
    rintro m m' i j ⟨base, probed, regs, done, pc, hanswers, h⟩ ⟨hi, hblocked⟩ hj hstep
    obtain ⟨done', pc', h'⟩ := h.next hboot hanswers hstep
    exact ⟨hi, h.unblocked_stay h' hall hstep hj hblocked⟩

theorem completed_of_fair (hboot : p.Bootable) (hall : p.secondaries.length + 1 = p.nprocValid)
    {t : Schedule (BootMachine.step p) (init p)} (hfair : t.Fair (· ∈ p.primary :: p.secondaries))
    : ∃ n, Completed p (t.state n) := by
  apply hfair.eventually (helpful hboot hall)
  . intro n
    obtain ⟨as, hrun⟩ := t.exists_run n
    exact exists_reached hboot hrun
  . rintro m ⟨_, _, _, _, _, _, h⟩ hgoal
    obtain ⟨i, hi, hblocked⟩ := h.exists_unblocked hall hgoal
    exact ⟨i, hi, hi, hblocked⟩

theorem exists_fair (hboot : p.Bootable)
    : ∃ t : Schedule (BootMachine.step p) (init p), t.Fair fun _ => True :=
  exists_fair_schedule fun _ _ hrun => step_ne_panic hboot hrun

theorem exists_completed (hboot : p.Bootable) (hall : p.secondaries.length + 1 = p.nprocValid)
    : ∃ as m, Run (BootMachine.step p) (fun _ _ => True) (init p) as m ∧ Completed p m := by
  obtain ⟨t, hfair⟩ := exists_fair hboot
  obtain ⟨n, hn⟩ := completed_of_fair hboot hall fun i _ => hfair i trivial
  obtain ⟨as, hrun⟩ := t.exists_run n
  exact ⟨as, _, hrun, hn⟩

end BootMachine

end Jrinx
