import Jrinx.Multitask.Machine

/-!
This module is about the end of all work: the last runtime that gets to its endpoint sends a software
interrupt to another one, which then finds that everything is finished and halts the machine. The
interrupt is lost if it is taken right before `wfi`.
-/

namespace Jrinx

open Std

def RuntimePc.sleeps : RuntimePc → Bool
  | .enableInt | .wfi | .asleep => true
  | _ => false

namespace Cpu

def Alert (c : Cpu) : Prop := c.softPending = true ∨ c.pc.sleeps = false

theorem Jump.sleeps {rt : Runtime} {pc pc' : RuntimePc} (h : Jump rt pc pc') (hawake : pc.sleeps = false)
    : pc'.sleeps = false := by
  cases h <;> simp_all [RuntimePc.sleeps]

theorem sleeps_step {c c' : Cpu} {a : CpuAction} (hawake : c.pc.sleeps = false)
    (hstep : c.step a = .next c')
    : c'.pc.sleeps = false ∨ (a = .run ∧ ∃ target, c.pc = .setEndpoint target) := by
  cases loopStep hstep with
  | inner _ _ hpc | opRegister _ _ hpc | opUnregister _ _ hpc | opEnact _ _ hpc | opRevoke _ _ hpc =>
    left
    rwa [hpc]
  | jump _ hjump => exact .inl (Jump.sleeps hjump hawake)
  | endpoint _ hpc _ => exact .inr ⟨rfl, _, hpc⟩
  | visit _ _ hpc' | visitEnd _ _ hpc' | wake _ _ hpc' | stayAwake _ _ hpc' | popFront _ _ _ hpc'
  | enter _ _ hpc' | exitTable _ _ hpc' | exitQueue _ _ hpc' | unregister _ _ _ hpc'
  | pushBack _ _ _ hpc' | tableStart _ _ _ hpc' | tableNext _ _ _ _ hpc' =>
    left
    rw [hpc']
    rfl

theorem softPending_inspectorRun {c c' : Cpu} {mode : VisitMode} {id : InspectorId} {p : InspectorPc}
    (h : c.inspectorRun mode id p = .next c')
    : c'.softPending = c.softPending := by
  cases p with
  | dequeue | testPending =>
    obtain ⟨⟨_, _⟩, _, h⟩ := Outcome.unwrap_eq_next h
    dsimp only at h
    split at h
    all_goals
      simp only [Outcome.next.injEq] at h
      subst h
      rfl
  | setCurrent | clearCurrent =>
    obtain ⟨_, _, h⟩ := Outcome.unwrap_eq_next h
    simp only [Outcome.next.injEq] at h
    subst h
    rfl
  | switchTo | unregister | enqueue =>
    obtain ⟨_, _, h⟩ := Outcome.unwrap_eq_next h
    obtain ⟨_, _, h⟩ := Outcome.unwrap_eq_next h
    simp only [Outcome.next.injEq] at h
    subst h
    rfl
  | testFinished =>
    obtain ⟨_, _, h⟩ := Outcome.unwrap_eq_next h
    obtain ⟨_, _, h⟩ := Outcome.unwrap_eq_next h
    split at h
    all_goals
      simp only [Outcome.next.injEq] at h
      subst h
      rfl
  | executing => simp [inspectorRun] at h

theorem softPending_runStep {c c' : Cpu} (h : c.runStep = .next c') : c'.softPending = c.softPending := by
  cases hpc : c.pc with
  | visit mode id p =>
    simp only [runStep, hpc] at h
    exact softPending_inspectorRun h
  | tableNext | popFront =>
    simp only [runStep, hpc] at h
    split at h
    all_goals
      simp only [reduceCtorEq, Outcome.next.injEq] at h
    all_goals
      subst h
      rfl
  | clearCurrent mode id | leave mode =>
    cases mode with
    | table | queue =>
      simp only [runStep, hpc, Outcome.next.injEq] at h
      subst h
      rfl
  | testEmpty | unregister | pushBack =>
    simp only [runStep, hpc] at h
    obtain ⟨_, _, h⟩ := Outcome.unwrap_eq_next h
    simp only [Outcome.next.injEq] at h
    subst h
    rfl
  | tableStart | halt | asleep => simp [runStep, hpc] at h
  | start | testTable | setCurrent | sendIpi | setEndpoint | enableInt | wfi | disableInt =>
    simp only [runStep, hpc, Outcome.next.injEq] at h
    subst h
    rfl

theorem endpoint_of_sleeps_step {c c' : Cpu} {a : CpuAction}
    (hinv : c.pc.sleeps = true → c.rt.status = .endpoint) (hstep : c.step a = .next c')
    (hsleeps : c'.pc.sleeps = true)
    : c'.rt.status = .endpoint := by
  cases loopStep hstep with
  | inner _ hrt hpc =>
    rw [hrt.status]
    exact hinv (by rwa [← hpc])
  | opRegister _ hrt hpc | opUnregister _ hrt hpc | opEnact _ hrt hpc | opRevoke _ hrt hpc =>
    rw [hrt]
    exact hinv (by rwa [← hpc])
  | jump hrt hjump =>
    rw [hrt]
    apply hinv
    by_contra hawake
    have := Jump.sleeps hjump (by simpa using hawake)
    simp [this] at hsleeps
  | endpoint hrt _ _ => rw [hrt]
  | visit _ _ hpc' | visitEnd _ _ hpc' | wake _ _ hpc' | stayAwake _ _ hpc' | popFront _ _ _ hpc'
  | enter _ _ hpc' | exitTable _ _ hpc' | exitQueue _ _ hpc' | unregister _ _ _ hpc'
  | pushBack _ _ _ hpc' | tableStart _ _ _ hpc' | tableNext _ _ _ _ hpc' =>
    simp [hpc', RuntimePc.sleeps] at hsleeps

theorem softPending_step {c c' : Cpu} {a : CpuAction} (hpending : c.softPending = true)
    (ha : a ≠ .softInt) (hstep : c.step a = .next c')
    : c'.softPending = true := by
  cases a with
  | run =>
    rw [softPending_runStep hstep]
    exact hpending
  | softInt => exact absurd rfl ha
  | receiveIpi | op =>
    simp only [step, Outcome.next.injEq] at hstep
    subst hstep
    first
    | rfl
    | exact hpending
  | stayAwake | wakeUp =>
    simp only [step] at hstep
    split at hstep
    . simp only [Outcome.next.injEq] at hstep
      subst hstep
      exact hpending
    . simp at hstep
  | startTable =>
    simp only [step] at hstep
    split at hstep
    . obtain ⟨_, _, hstep⟩ := Outcome.unwrap_eq_next hstep
      simp only [Outcome.next.injEq] at hstep
      subst hstep
      exact hpending
    . simp at hstep
  | execute =>
    simp only [step, execute] at hstep
    split at hstep
    . split at hstep
      . simp at hstep
      . split at hstep
        . simp at hstep
        . obtain ⟨_, _, rfl⟩ := Outcome.map_eq_next hstep
          exact hpending
    . simp at hstep
  | yield =>
    simp only [step, yield] at hstep
    split at hstep
    . obtain ⟨_, _, hstep⟩ := Outcome.unwrap_eq_next hstep
      obtain ⟨_, _, hstep⟩ := Outcome.unwrap_eq_next hstep
      simp only [Outcome.next.injEq] at hstep
      subst hstep
      exact hpending
    . simp at hstep

theorem Alert.step {c c' : Cpu} {a : CpuAction} (halert : c.Alert) (hstep : c.step a = .next c')
    : c'.Alert ∨ (a = .softInt ∧ c.pc = .wfi) ∨ (a = .run ∧ ∃ target, c.pc = .setEndpoint target) := by
  rcases halert with hpending | hawake
  . by_cases ha : a = .softInt
    . subst ha
      -- Where the trap returns to a CPU that is awake, the next check is still ahead.
      simp only [Cpu.step, softInt, hpending, if_true] at hstep
      split at hstep
      all_goals
        next hpc =>
        first
        | exact .inr (.inl ⟨rfl, hpc⟩)
        | simp only [Outcome.next.injEq] at hstep
          subst hstep
          exact .inl (.inr (by simp [hpc, RuntimePc.sleeps]))
        | simp at hstep
    . exact .inl (.inl (softPending_step hpending ha hstep))
  . rcases sleeps_step hawake hstep with hawake' | hendpoint
    . exact .inl (.inr hawake')
    . exact .inr (.inr hendpoint)

theorem status_step {c c' : Cpu} {a : CpuAction} (hstep : c.step a = .next c')
    : c'.rt.status = c.rt.status ∨
        (c.locksStatus a = true ∧ c.pc.locked = false ∧ c'.rt.status ≠ .unused ∧
          c'.rt.status ≠ .endpoint) ∨
        (a = .run ∧ ∃ target, c.pc = .setEndpoint target) := by
  cases loopStep hstep with
  | inner _ hrt _ | visit hrt _ _ | visitEnd hrt _ _ => exact .inl hrt.status
  | enter hrt hpc _ | exitTable hrt hpc _ | exitQueue hrt hpc _ =>
    right
    left
    simp [locksStatus, hpc, hrt, RuntimePc.locked]
  | endpoint hrt hpc _ => exact .inr (.inr ⟨rfl, _, hpc⟩)
  | jump hrt _ | wake hrt _ _ | stayAwake hrt _ _ =>
    left
    rw [hrt]
  | popFront _ hrt _ _ | tableStart _ hrt _ _ =>
    left
    rw [hrt]
  | unregister _ hrt _ _ | pushBack _ hrt _ _ =>
    left
    rw [hrt]
  | tableNext _ _ hrt _ _ =>
    left
    rw [hrt]
  | opRegister _ hrt _ | opUnregister _ hrt _ | opEnact _ hrt _ | opRevoke _ hrt _ =>
    left
    rw [hrt]

theorem locked_step {c c' : Cpu} {a : CpuAction} (hstep : c.step a = .next c')
    (hlocked : c'.pc.locked = true)
    : c'.pc = c.pc ∨ (∃ target, a = .run ∧ c.pc = .sendIpi target ∧ c'.pc = .setEndpoint target) ∨
        (∃ target, a = .stayAwake target ∧ c'.pc = .sendIpi target) := by
  cases loopStep hstep with
  | inner _ _ hpc | opRegister _ _ hpc | opUnregister _ _ hpc | opEnact _ _ hpc | opRevoke _ _ hpc =>
    exact .inl hpc
  | jump _ hjump =>
    right
    left
    generalize c.pc = pc at hjump
    generalize c'.pc = pc' at hjump hlocked
    cases hjump <;> simp_all [RuntimePc.locked]
  | stayAwake _ _ hpc' => exact .inr (.inr ⟨_, rfl, hpc'⟩)
  | visit _ _ hpc' | visitEnd _ _ hpc' | wake _ _ hpc' | popFront _ _ _ hpc' | enter _ _ hpc'
  | exitTable _ _ hpc' | exitQueue _ _ hpc' | unregister _ _ _ hpc' | pushBack _ _ _ hpc'
  | tableStart _ _ _ hpc' | tableNext _ _ _ _ hpc' | endpoint _ _ hpc' =>
    simp [hpc', RuntimePc.locked] at hlocked

end Cpu

namespace Machine

variable {n : Nat} {m m' : Machine n} {A : MachineAction n} {i j : Fin n}

theorem allEndpoint_congr (h : ∀ j, m'.status j = m.status j) : m'.AllEndpoint ↔ m.AllEndpoint := by
  simp only [AllEndpoint, h]

theorem firstEndpoint_congr (h : ∀ j, m'.status j = m.status j)
    : m'.firstEndpoint = m.firstEndpoint := by
  simp only [firstEndpoint, h]

theorem firstEndpoint_eq_some (h : m.firstEndpoint = some i) : m.status i = .endpoint := by
  have := List.find?_some h
  simpa using this

theorem exists_firstEndpoint (h : m.status i = .endpoint) : ∃ t, m.firstEndpoint = some t := by
  apply Option.isSome_iff_exists.mp
  simp only [firstEndpoint, List.find?_isSome, decide_eq_true_eq]
  exact ⟨i, List.mem_finRange i, h⟩

theorem Acts.eq_of_run (h : m.Acts A i .run) : A = .cpu i .run := by
  cases h
  rfl

theorem Acts.eq_of_softInt (h : m.Acts A i .softInt) : A = .cpu i .softInt := by
  cases h
  rfl

theorem Acts.eq_of_stayAwake {target : Option Nat} (h : m.Acts A i (.stayAwake target))
    : A = .check i ∧ m.Free i ∧ ¬ m.AllEndpoint ∧ target = m.firstEndpoint.map Fin.val := by
  cases h with
  | cpu _ _ _ hstay => exact absurd rfl (hstay target)
  | stayAwake _ _ hfree hnot => exact ⟨rfl, hfree, hnot, rfl⟩

theorem Acts.free {a : CpuAction} (h : m.Acts A i a) (hlocks : (m.cpus i).locksStatus a = true)
    : m.Free i := by
  cases h with
  | cpu _ hfree => exact hfree hlocks
  | _ => simp [Cpu.locksStatus] at hlocks

theorem step_sendIpi {t : Fin n} (hstep : m.step (.cpu i .run) = .next m')
    (hpc : (m.cpus i).pc = .sendIpi (some t.val)) (hne : t ≠ i)
    : (m'.cpus t).softPending = true := by
  cases step_cases hstep with
  | sendIpi _ _ htarget _ =>
    rw [hpc, RuntimePc.sendIpi.injEq] at htarget
    subst htarget
    simp [setCpu_cpus, hne, deliver]
  | cpu _ _ _ _ hother _ => exact absurd hpc (hother _ rfl)

end Machine

namespace WakeUp

variable {n : Nat} {m m' : Machine n} {A : MachineAction n}

/--
The software interrupt is not taken between the end of the locked section and `wfi`.
-/
def NotBeforeWfi (m : Machine n) (A : MachineAction n) : Prop :=
  match A with
  | .cpu i .softInt => (m.cpus i).pc ≠ .wfi
  | _ => True

structure Inv (m : Machine n) : Prop where
  exclusive : ∀ i j, (m.cpus i).pc.locked = true → (m.cpus j).pc.locked = true → i = j
  -- What the check has seen still holds at the end of the locked section.
  checked : ∀ i target, (m.cpus i).pc = .sendIpi target ∨ (m.cpus i).pc = .setEndpoint target →
    ¬ m.AllEndpoint ∧ target = m.firstEndpoint.map Fin.val
  sent : ∀ i t : Fin n, (m.cpus i).pc = .setEndpoint (some t.val) → t ≠ i → (m.cpus t).Alert
  -- Once all the runtimes have reached their endpoint, one of them is going to find out.
  alert : m.AllEndpoint → (∃ i j, i ≠ j ∧ m.status i ≠ .unused ∧ m.status j ≠ .unused) →
    ∃ j, m.status j ≠ .unused ∧ (m.cpus j).Alert

theorem inv_init (n : Nat) : Inv (Machine.init n) := by
  constructor
  . simp [Machine.init, Cpu.boot, RuntimePc.locked]
  . simp [Machine.init, Cpu.boot]
  . simp [Machine.init, Cpu.boot]
  . simp [Machine.init, Machine.status, Cpu.boot, Runtime.new]

theorem Inv.status_eq {i : Fin n} (hinv : Inv m) (hstep : m.step A = .next m')
    (hlocked : (m.cpus i).pc.locked = true) (j : Fin n)
    : m'.status j = m.status j ∨
        (j = i ∧ A = .cpu i .run ∧ ∃ target, (m.cpus i).pc = .setEndpoint target) := by
  rcases Machine.step_cpus hstep j with hsame | ⟨a, hacts, hcpu⟩
  . left
    rw [Machine.status, Machine.status, hsame]
  . rcases Cpu.status_step hcpu with hstatus | ⟨hlocks, hout, _⟩ | ⟨rfl, target, hpc⟩
    . exact .inl hstatus
    . -- The others wait for the lock.
      have hfree := hacts.free hlocks
      have hne : i ≠ j := by
        rintro rfl
        simp [hlocked] at hout
      simp [hfree i hne] at hlocked
    . right
      have hj : j = i := by
        apply hinv.exclusive j i _ hlocked
        rw [hpc]
        rfl
      subst hj
      exact ⟨rfl, hacts.eq_of_run, target, hpc⟩

theorem locked_step {i : Fin n} (hstep : m.step A = .next m')
    (hlocked : (m'.cpus i).pc.locked = true)
    : (m'.cpus i).pc = (m.cpus i).pc ∨
        (∃ target, A = .cpu i .run ∧ (m.cpus i).pc = .sendIpi target ∧
          (m'.cpus i).pc = .setEndpoint target) ∨
        (A = .check i ∧ m.Free i ∧ ¬ m.AllEndpoint ∧
          (m'.cpus i).pc = .sendIpi (m.firstEndpoint.map Fin.val)) := by
  rcases Machine.step_cpus hstep i with hsame | ⟨a, hacts, hcpu⟩
  . exact .inl (by rw [hsame])
  . rcases Cpu.locked_step hcpu hlocked with hpc | ⟨target, rfl, hpc, hpc'⟩ | ⟨target, rfl, hpc'⟩
    . exact .inl hpc
    . exact .inr (.inl ⟨target, hacts.eq_of_run, hpc, hpc'⟩)
    . obtain ⟨hA, hfree, hnot, rfl⟩ := hacts.eq_of_stayAwake
      exact .inr (.inr ⟨hA, hfree, hnot, hpc'⟩)

theorem check_status {i : Fin n} (hstep : m.step (.check i) = .next m') (j : Fin n)
    : m'.status j = m.status j := by
  rcases Machine.step_cpus hstep j with hsame | ⟨a, hacts, hcpu⟩
  . rw [Machine.status, Machine.status, hsame]
  . cases hacts with
    | stayAwake =>
      rcases Cpu.status_step hcpu with hstatus | ⟨hlocks, _⟩ | ⟨ha, _⟩
      . exact hstatus
      . simp [Cpu.locksStatus] at hlocks
      . simp at ha

theorem setEndpoint_cpus {i : Fin n} {target : Option Nat} (hstep : m.step (.cpu i .run) = .next m')
    (hpc : (m.cpus i).pc = .setEndpoint target)
    : (m'.cpus i).pc = .enableInt ∧ ∀ j, j ≠ i → m'.cpus j = m.cpus j := by
  cases Machine.step_cases hstep with
  | sendIpi _ _ hsend _ => simp [hpc] at hsend
  | cpu _ _ _ _ _ hcpu =>
    simp only [Cpu.step, Cpu.runStep, hpc, Outcome.next.injEq] at hcpu
    subst hcpu
    constructor
    . simp [Machine.setCpu_cpus]
    . intro j hne
      simp [Machine.setCpu_cpus, hne]

theorem Inv.exclusive_step (hinv : Inv m) (hstep : m.step A = .next m') (i j : Fin n)
    (hi : (m'.cpus i).pc.locked = true) (hj : (m'.cpus j).pc.locked = true)
    : i = j := by
  by_contra hne
  have hbefore {k : Fin n} (hk : (m'.cpus k).pc.locked = true) (hcheck : A ≠ .check k)
      : (m.cpus k).pc.locked = true := by
    rcases locked_step hstep hk with hpc | ⟨target, _, hpc, _⟩ | ⟨hA, _⟩
    . rwa [← hpc]
    . rw [hpc]
      rfl
    . exact absurd hA hcheck
  -- Only one of the two can have made the check, and it has found the lock free.
  have hfirst {k l : Fin n} (hkl : k ≠ l) (hl : (m'.cpus l).pc.locked = true) (hA : A = .check k)
      : False := by
    have hfree : m.Free k := by
      subst hA
      cases Machine.step_cases hstep with
      | halt _ _ hfree _ | stayAwake _ _ hfree _ _ => exact hfree
    have hold := hbefore hl (by simp [hA, hkl])
    simp [hfree l hkl.symm] at hold
  by_cases hAi : A = .check i
  . exact hfirst hne hj hAi
  . by_cases hAj : A = .check j
    . exact hfirst (Ne.symm hne) hi hAj
    . exact hne (hinv.exclusive i j (hbefore hi hAi) (hbefore hj hAj))

theorem Inv.checked_step (hinv : Inv m) (hstep : m.step A = .next m') (i : Fin n)
    (target : Option Nat)
    (hpc' : (m'.cpus i).pc = .sendIpi target ∨ (m'.cpus i).pc = .setEndpoint target)
    : ¬ m'.AllEndpoint ∧ target = m'.firstEndpoint.map Fin.val := by
  have hlocked' : (m'.cpus i).pc.locked = true := by
    rcases hpc' with h | h <;> simp [h, RuntimePc.locked]
  -- The holder of the lock did not leave the section, so nobody has changed a status.
  have hframe (hlocked : (m.cpus i).pc.locked = true) : ∀ j, m'.status j = m.status j := by
    intro j
    rcases hinv.status_eq hstep hlocked j with h | ⟨_, hA, t, hpc⟩
    . exact h
    . subst hA
      have hleft := (setEndpoint_cpus hstep hpc).1
      simp [hleft, RuntimePc.locked] at hlocked'
  rcases locked_step hstep hlocked' with hsame | ⟨t, hA, hpc, hset⟩ | ⟨hA, hfree, hnot, hset⟩
  . rw [hsame] at hpc' hlocked'
    rw [Machine.allEndpoint_congr (hframe hlocked'), Machine.firstEndpoint_congr (hframe hlocked')]
    exact hinv.checked i target hpc'
  . have hframe := hframe (by rw [hpc]; rfl)
    rw [Machine.allEndpoint_congr hframe, Machine.firstEndpoint_congr hframe]
    have ht : t = target := by simpa [hset] using hpc'
    subst ht
    exact hinv.checked i t (.inl hpc)
  . subst hA
    have hframe := check_status hstep
    rw [Machine.allEndpoint_congr hframe, Machine.firstEndpoint_congr hframe]
    have ht : m.firstEndpoint.map Fin.val = target := by simpa [hset] using hpc'
    exact ⟨hnot, ht.symm⟩

theorem Inv.sent_step (hinv : Inv m) (hallowed : NotBeforeWfi m A) (hstep : m.step A = .next m')
    (i t : Fin n) (hpc' : (m'.cpus i).pc = .setEndpoint (some t.val)) (hne : t ≠ i)
    : (m'.cpus t).Alert := by
  have hlocked' : (m'.cpus i).pc.locked = true := by simp [hpc', RuntimePc.locked]
  rcases locked_step hstep hlocked' with hsame | ⟨target, hA, hpc, hset⟩ | ⟨_, _, _, hset⟩
  . rw [hsame] at hpc' hlocked'
    have halert := hinv.sent i t hpc' hne
    rcases Machine.step_cpus hstep t with hcpus | ⟨a, hacts, hcpu⟩
    . rwa [hcpus]
    . rcases halert.step hcpu with halert' | ⟨rfl, hwfi⟩ | ⟨rfl, target, hset⟩
      . exact halert'
      . have hA := hacts.eq_of_softInt
        subst hA
        exact absurd hwfi hallowed
      . have hti := hinv.exclusive t i (by rw [hset]; rfl) hlocked'
        exact absurd hti hne
  . subst hA
    rw [hpc'] at hset
    simp only [RuntimePc.setEndpoint.injEq] at hset
    subst hset
    exact .inl (Machine.step_sendIpi hstep hpc hne)
  . simp [hpc'] at hset

theorem Inv.alert_setEndpoint {i : Fin n} {target : Option Nat} (hinv : Inv m)
    (hstep : m.step (.cpu i .run) = .next m') (hpc : (m.cpus i).pc = .setEndpoint target)
    (hall : m'.AllEndpoint) (htwo : ∃ i j, i ≠ j ∧ m'.status i ≠ .unused ∧ m'.status j ≠ .unused)
    : ∃ j, m'.status j ≠ .unused ∧ (m'.cpus j).Alert := by
  obtain ⟨hnot, htarget⟩ := hinv.checked i target (.inr hpc)
  obtain ⟨_, hothers⟩ := setEndpoint_cpus hstep hpc
  have hstatus {j : Fin n} (hj : j ≠ i) : m'.status j = m.status j := by
    rw [Machine.status, Machine.status, hothers j hj]
  have hother : ∃ k, k ≠ i ∧ m.status k = .endpoint := by
    obtain ⟨k, l, hkl, hk, hl⟩ := htwo
    by_cases hki : k = i
    . have hli : l ≠ i := fun h => hkl (hki.trans h.symm)
      exact ⟨l, hli, by rw [← hstatus hli]; exact hall l hl⟩
    . exact ⟨k, hki, by rw [← hstatus hki]; exact hall k hk⟩
  obtain ⟨k, hki, hk⟩ := hother
  obtain ⟨t, ht⟩ := Machine.exists_firstEndpoint hk
  have htendpoint := Machine.firstEndpoint_eq_some ht
  have hti : t ≠ i := by
    rintro rfl
    apply hnot
    intro j hj
    by_cases hjt : j = t
    . rw [hjt]
      exact htendpoint
    . rw [← hstatus hjt]
      exact hall j (by rwa [hstatus hjt])
  refine ⟨t, ?_, ?_⟩
  . rw [hstatus hti, htendpoint]
    simp
  . rw [hothers t hti]
    apply hinv.sent i t _ hti
    rw [hpc, htarget, ht]
    rfl

theorem Inv.alert_step (hinv : Inv m) (hallowed : NotBeforeWfi m A) (hstep : m.step A = .next m')
    (hall : m'.AllEndpoint) (htwo : ∃ i j, i ≠ j ∧ m'.status i ≠ .unused ∧ m'.status j ≠ .unused)
    : ∃ j, m'.status j ≠ .unused ∧ (m'.cpus j).Alert := by
  by_cases hlast : ∃ i target, A = .cpu i .run ∧ (m.cpus i).pc = .setEndpoint target
  . obtain ⟨i, target, rfl, hpc⟩ := hlast
    exact hinv.alert_setEndpoint hstep hpc hall htwo
  . -- Any other change of a status would leave a runtime that is not at its endpoint.
    have hstatus : ∀ j, m'.status j = m.status j := by
      intro j
      rcases Machine.step_cpus hstep j with hsame | ⟨a, hacts, hcpu⟩
      . rw [Machine.status, Machine.status, hsame]
      . rcases Cpu.status_step hcpu with h | ⟨_, _, hused, hbusy⟩ | ⟨rfl, target, hpc⟩
        . exact h
        . exact absurd (hall j hused) hbusy
        . exact absurd ⟨j, target, hacts.eq_of_run, hpc⟩ hlast
    rw [Machine.allEndpoint_congr hstatus] at hall
    simp only [hstatus] at htwo ⊢
    obtain ⟨j, hused, halert⟩ := hinv.alert hall htwo
    refine ⟨j, hused, ?_⟩
    rcases Machine.step_cpus hstep j with hsame | ⟨a, hacts, hcpu⟩
    . rwa [hsame]
    . rcases halert.step hcpu with halert' | ⟨rfl, hwfi⟩ | ⟨rfl, target, hset⟩
      . exact halert'
      . have hA := hacts.eq_of_softInt
        subst hA
        exact absurd hwfi hallowed
      . exact absurd ⟨j, target, hacts.eq_of_run, hset⟩ hlast

theorem Inv.step (hinv : Inv m) (hallowed : NotBeforeWfi m A) (hstep : m.step A = .next m')
    : Inv m' := by
  constructor
  . exact hinv.exclusive_step hstep
  . exact hinv.checked_step hstep
  . exact hinv.sent_step hallowed hstep
  . exact hinv.alert_step hallowed hstep

/--
Everything is finished and nobody is going to find out: at least two CPUs sleep, so do all the ones
with a runtime in use, all these runtimes are at their endpoint, and no interrupt is on its way.
-/
structure SleepsForever (m : Machine n) : Prop where
  halted : m.halted = false
  two : ∃ i j, i ≠ j ∧ (m.cpus i).pc = .asleep ∧ (m.cpus j).pc = .asleep
  endpoint : m.AllEndpoint
  asleep : ∀ i, m.status i ≠ .unused → (m.cpus i).pc = .asleep
  quiet : ∀ i, (m.cpus i).softPending = false

theorem endpoint_of_sleeps {as : List (MachineAction n)}
    (hrun : Run Machine.step NotBeforeWfi (Machine.init n) as m)
    : ∀ j, (m.cpus j).pc.sleeps = true → m.status j = .endpoint := by
  apply hrun.invariant (fun m => ∀ j, (m.cpus j).pc.sleeps = true → m.status j = .endpoint)
  . simp [Machine.init, Cpu.boot, RuntimePc.sleeps]
  . intro s s' A hinv _ hstep
    apply Machine.forall_cpus_step (fun c => c.pc.sleeps = true → c.rt.status = .endpoint)
      (fun _ _ => True) _ _ hinv hstep
    . intro c c' a hc _ hcpu
      exact Cpu.endpoint_of_sleeps_step hc hcpu
    . exact fun _ _ _ => trivial

/--
If no software interrupt is taken right before `wfi`, the machine does not sleep forever.
-/
theorem not_sleepsForever {as : List (MachineAction n)}
    (hrun : Run Machine.step NotBeforeWfi (Machine.init n) as m)
    : ¬ SleepsForever m := by
  intro hbad
  have hinv : Inv m := by
    apply hrun.invariant Inv (inv_init n)
    intro s s' a hs hallowed hstep
    exact hs.step hallowed hstep
  have hused : ∀ j, (m.cpus j).pc = .asleep → m.status j ≠ .unused := by
    intro j hpc
    have := endpoint_of_sleeps hrun j (by rw [hpc]; rfl)
    simp [this]
  obtain ⟨k, l, hkl, hk, hl⟩ := hbad.two
  obtain ⟨j, hj, hpending | hawake⟩ := hinv.alert hbad.endpoint ⟨k, l, hkl, hused k hk, hused l hl⟩
  . simp [hbad.quiet j] at hpending
  . simp [hbad.asleep j hj, RuntimePc.sleeps] at hawake

instance (m : Machine n) (A : MachineAction n) : Decidable (NotBeforeWfi m A) := by
  induction A using MachineAction.casesOn with
  | cpu i a =>
    induction a using CpuAction.casesOn with
    | softInt => exact inferInstanceAs (Decidable ((m.cpus i).pc ≠ .wfi))
    | _ => exact isTrue trivial
  | _ => exact isTrue trivial

def first : Fin 2 := 0

def second : Fin 2 := 1

def lastEndpoint : List (MachineAction 2) :=
  -- Two CPUs that finish their root tasks. The first one is about to execute `wfi` when the second
  -- one gets to its endpoint.
  [Machine.bootRoot first, Machine.bootRoot second] ++ Machine.finishRoot first ++
    [.check first, .cpu first .run, .cpu first .run, .cpu first .run] ++ Machine.finishRoot second ++
    [.check second, .cpu second .run, .cpu second .run, .cpu second .run, .cpu second .run]

theorem not_sleepsForever_lastEndpoint
    : ∃ m, Run Machine.step NotBeforeWfi (Machine.init 2)
          (lastEndpoint ++ [.cpu 0 .run, .cpu 0 .softInt]) m ∧
        m.AllEndpoint ∧ (m.cpus 0).pc = .disableInt ∧ (m.cpus 1).pc = .asleep ∧ ¬ SleepsForever m := by
  obtain ⟨m, hrun, hm⟩ := exists_run_of_exec (checked Machine.step NotBeforeWfi) (Machine.init 2)
    (lastEndpoint ++ [.cpu 0 .run, .cpu 0 .softInt])
    (fun m => m.AllEndpoint && decide ((m.cpus 0).pc = .disableInt) && decide ((m.cpus 1).pc = .asleep))
    (by decide +kernel)
  simp only [Bool.and_eq_true, decide_eq_true_eq] at hm
  obtain ⟨⟨hall, hfirst⟩, hsecond⟩ := hm
  exact ⟨m, hrun.of_checked, hall, hfirst, hsecond, not_sleepsForever hrun.of_checked⟩

theorem sleepsForever_lastEndpoint
    : ¬ ∀ as m, Run Machine.step (fun _ _ => True) (Machine.init 2) as m → ¬ SleepsForever m := by
  intro hall
  obtain ⟨m, hrun, hm⟩ := exists_run_of_exec Machine.step (Machine.init 2)
    (lastEndpoint ++ [.cpu 0 .softInt, .cpu 0 .run])
    (fun m => !m.halted && m.AllEndpoint && decide (∀ i, (m.cpus i).pc = .asleep) &&
      decide (∀ i, (m.cpus i).softPending = false))
    (by decide +kernel)
  simp only [Bool.and_eq_true, Bool.not_eq_true', decide_eq_true_eq] at hm
  obtain ⟨⟨⟨hhalted, hendpoint⟩, hasleep⟩, hquiet⟩ := hm
  apply hall _ m hrun
  exact ⟨hhalted, ⟨0, 1, by decide, hasleep 0, hasleep 1⟩, hendpoint, fun i _ => hasleep i, hquiet⟩

end WakeUp

end Jrinx
