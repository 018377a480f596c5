import Jrinx.Multitask.TimedCpu

/-!
This module contains the proof of what it takes for no slot to start early: `sched_next` waits once and
does not look at the clock again.
-/

namespace Jrinx

open Std

namespace TimedCpu

def SlotBegun (s : TimedCpu) : Prop :=
  ∀ datum entry, s.slot = some (datum, entry) →
    datum.nanos + entry.offset.nanos ≤ s.now.nanos

/--
Where `sched_next` goes to wait, no event is queued before the start of the slot and the timer can be set
to the start exactly. Where the wait ends too early, it is not for another interrupt.
-/
def WaitsForStart (s : TimedCpu) (a : TimedCpuAction) : Prop :=
  match a with
  | .beginNext => ∀ slot ∈ s.nextSlot, s.now < slot.2.2 →
      slot.2.2 ≤ s.events.deadline ∧
        slot.2.2 ≤ Cpu.getTime s.freq (Cpu.timerTicks s.freq slot.2.2)
  | .wake => ∀ slot ∈ s.nextSlot, s.now < slot.2.2 →
      s.cpu.softPending = false ∧ s.externalPending = false
  | _ => True

structure OnTime (s : TimedCpu) : Prop where
  clock : ∀ ticks ≤ s.ticks, Cpu.getTime s.freq ticks ≤ s.now
  waiting : s.schedNext = .waiting → s.cpu.pc = .tableNext ∧
    ∀ slot ∈ s.nextSlot, slot.2.2 ≤ Cpu.getTime s.freq (Cpu.timerTicks s.freq s.timer)
  ready : s.schedNext = .ready → s.cpu.pc = .tableNext ∧ ∀ slot ∈ s.nextSlot, slot.2.2 ≤ s.now
  begun : s.SlotBegun

variable {s s' : TimedCpu}

theorem onTime_boot (freq : Nat) : (boot freq).OnTime := by
  constructor
  case clock =>
    intro ticks hticks
    obtain rfl : ticks = 0 := Nat.le_zero.mp hticks
    exact Nat.le_refl _
  case waiting => simp [boot]
  case ready => simp [boot]
  case begun => simp [SlotBegun, boot]

theorem nextSlot_congr (h : s'.cpu.rt.schedTable = s.cpu.rt.schedTable) : s'.nextSlot = s.nextSlot := by
  rw [nextSlot, nextSlot, h]

theorem nextSlot_start {t : RuntimeSchedTable} {entry : RuntimeSchedTableEntry} {start : Duration}
    (h : s.nextSlot = some (t, entry, start))
    : start.nanos = t.datum.nanos + entry.offset.nanos := by
  simp only [nextSlot, Option.bind_eq_some_iff, Option.map_eq_some_iff, Prod.mk.injEq] at h
  obtain ⟨t', _, entry', _, start', hadd, rfl, rfl, rfl⟩ := h
  exact Duration.add_eq_some.mp hadd

theorem OnTime.of_eq (h : s.OnTime) (hfreq : s'.freq = s.freq) (hticks : s'.ticks = s.ticks)
    (hslot : s'.slot = s.slot)
    (hwaiting : s'.schedNext = .waiting → s'.cpu.pc = .tableNext ∧
      ∀ slot ∈ s'.nextSlot, slot.2.2 ≤ Cpu.getTime s.freq (Cpu.timerTicks s.freq s'.timer))
    (hready : s'.schedNext = .ready → s'.cpu.pc = .tableNext ∧
      ∀ slot ∈ s'.nextSlot, slot.2.2 ≤ s.now)
    : s'.OnTime := by
  have hnow : s'.now = s.now := by
    rw [now, now, hfreq, hticks]
  constructor
  case clock =>
    rw [hnow, hfreq, hticks]
    exact h.clock
  case waiting =>
    rw [hfreq]
    exact hwaiting
  case ready =>
    rw [hnow]
    exact hready
  case begun =>
    rw [SlotBegun, hslot, hnow]
    exact h.begun

theorem OnTime.step {a : TimedCpuAction} (h : s.OnTime) (hallowed : s.WaitsForStart a)
    (hstep : s.step a = .next s')
    : s'.OnTime := by
  cases timedStep hstep with
  | cpu henabled hcpu =>
    refine h.of_eq rfl rfl rfl ?_ ?_
    . intro hwaiting
      obtain ⟨hpc, htable⟩ := step_of_locked (by simp_all) henabled hcpu
      obtain ⟨hold, hslot⟩ := h.waiting hwaiting
      refine ⟨hpc.trans hold, ?_⟩
      rw [nextSlot_congr (s := s) htable]
      exact hslot
    . intro hready
      obtain ⟨hpc, htable⟩ := step_of_locked (by simp_all) henabled hcpu
      obtain ⟨hold, hslot⟩ := h.ready hready
      refine ⟨hpc.trans hold, ?_⟩
      rw [nextSlot_congr (s := s) htable]
      exact hslot
  | wait hpc hidle hslot hlt =>
    obtain ⟨hdeadline, htick⟩ := hallowed _ hslot hlt
    refine h.of_eq rfl rfl rfl ?_ ?_
    . intro _
      refine ⟨hpc, ?_⟩
      intro slot hmem
      obtain rfl := Option.some.inj (hslot.symm.trans hmem)
      dsimp only [create]
      rw [TimedEventQueue.deadline_add hdeadline]
      exact htick
    . simp
  | noWait hpc hidle hslot hle =>
    refine h.of_eq rfl rfl rfl ?_ ?_
    . simp
    . intro _
      refine ⟨hpc, ?_⟩
      intro slot hmem
      obtain rfl := Option.some.inj (hslot.symm.trans hmem)
      exact Nat.le_of_not_lt hle
  | wake hwaiting hwakes =>
    obtain ⟨hpc, hslot⟩ := h.waiting hwaiting
    refine h.of_eq rfl rfl rfl ?_ ?_
    . simp
    . intro _
      refine ⟨hpc, ?_⟩
      intro slot hmem
      apply Nat.le_of_not_lt
      intro hearly
      -- only the timer can have ended the wait, so the clock has reached the start
      obtain ⟨hsoft, hexternal⟩ := hallowed slot hmem hearly
      have htimer : Cpu.timerTicks s.freq s.timer ≤ s.ticks := by
        simpa [timerPending, hsoft, hexternal] using hwakes
      have hreached := Nat.le_trans (hslot slot hmem) (h.clock _ htimer)
      exact absurd hearly (Nat.not_lt.mpr hreached)
  | finish hready hslot hstop hcpu =>
    obtain ⟨_, hstart⟩ := h.ready hready
    constructor
    case clock => exact h.clock
    case waiting => simp
    case ready => simp
    case begun =>
      intro datum entry hreturned
      simp only [Option.some.injEq, Prod.mk.injEq] at hreturned
      obtain ⟨rfl, rfl⟩ := hreturned
      rw [← nextSlot_start hslot]
      exact hstart _ hslot
  | slotEnd hpc hpeek hremove hend hmark hyield =>
    refine h.of_eq rfl rfl rfl ?_ ?_
    . intro hwaiting
      have hnext := (h.waiting hwaiting).1
      simp [hnext, RuntimePc.interruptible] at hpc
    . intro hready
      have hnext := (h.ready hready).1
      simp [hnext, RuntimePc.interruptible] at hpc
  | remove htimer hremove =>
    refine h.of_eq rfl rfl rfl ?_ ?_
    . intro hwaiting
      obtain ⟨hpc, hslot⟩ := h.waiting hwaiting
      have hsame := htimer (by simp_all) (by simp [hpc, RuntimePc.interruptible])
      refine ⟨hpc, ?_⟩
      dsimp only
      rw [hsame]
      exact hslot
    . exact h.ready
  | same => exact h
  | silence hpc =>
    refine h.of_eq rfl rfl rfl ?_ ?_
    . intro hwaiting
      have hnext := (h.waiting hwaiting).1
      simp [hnext, RuntimePc.interruptible] at hpc
    . exact h.ready
  | create hidle =>
    refine h.of_eq rfl rfl rfl ?_ ?_
    . intro hwaiting
      simp_all [TimedCpu.create]
    . intro hready
      simp_all [TimedCpu.create]
  | createElsewhere => exact h.of_eq rfl rfl rfl h.waiting h.ready
  | tick hle =>
    constructor
    case clock =>
      intro ticks hticks
      rcases Nat.lt_or_eq_of_le hticks with hlt | rfl
      . exact Nat.le_trans (h.clock ticks (Nat.le_of_lt_succ hlt)) hle
      . exact Nat.le_refl _
    case waiting => exact h.waiting
    case ready =>
      intro hready
      refine ⟨(h.ready hready).1, ?_⟩
      intro slot hmem
      exact Nat.le_trans ((h.ready hready).2 slot hmem) hle
    case begun =>
      intro datum entry hslot
      exact Nat.le_trans (h.begun datum entry hslot) hle
  | external pending => exact h.of_eq rfl rfl rfl h.waiting h.ready

/--
No slot starts early, as long as every wait of `sched_next` is for the start of its slot.
-/
theorem slotBegun_of_run {freq : Nat} {as : List TimedCpuAction}
    (hrun : Run step WaitsForStart (boot freq) as s)
    : s.SlotBegun := by
  have honTime : s.OnTime := by
    apply hrun.invariant OnTime (onTime_boot freq)
    intro s s' a h hallowed hstep
    exact h.step hallowed hstep
  exact honTime.begun

instance (s : TimedCpu) (a : TimedCpuAction) : Decidable (s.WaitsForStart a) := by
  induction a using TimedCpuAction.casesOn with
  | beginNext => exact inferInstanceAs (Decidable (∀ slot ∈ s.nextSlot, _))
  | wake => exact inferInstanceAs (Decidable (∀ slot ∈ s.nextSlot, _))
  | _ => exact isTrue trivial

def secondHalf : RuntimeSchedTable where
  frameSize := .fromNanos 4
  table := [⟨⟨1⟩, .fromNanos 2, .fromNanos 4, .fromNanos 2⟩]
  next := 0
  datum := .zero

def untilWait : List TimedCpuAction :=
  [
    .cpu (.op (.register ⟨1⟩ (.new ⟨1⟩ ⟨0⟩ ⟨⟨1⟩, ⟨0⟩⟩) [])), .cpu (.op (.enactSchedTable secondHalf)),
    .cpu .run, .cpu (.startTable .zero), .beginNext
  ]

theorem slotBegun_timer
    : ∃ s, Run step WaitsForStart (boot (10 ^ 9)) (untilWait ++ [.tick, .tick, .wake, .finishNext]) s ∧
        s.slot.isSome = true ∧ s.SlotBegun := by
  obtain ⟨s, hrun, hslot⟩ := exists_run_of_exec (checked step WaitsForStart) (boot (10 ^ 9))
    (untilWait ++ [.tick, .tick, .wake, .finishNext]) (fun s => s.slot.isSome) (by decide +kernel)
  exact ⟨s, hrun.of_checked, hslot, slotBegun_of_run hrun.of_checked⟩

-- A software interrupt ends the wait.
theorem slotBegun_softInt_false
    : ¬ ∀ as s, Run step EnactsAccepted (boot (10 ^ 9)) as s → s.SlotBegun := by
  intro hall
  obtain ⟨s, hrun, hearly⟩ := exists_run_of_exec step (boot (10 ^ 9))
    (untilWait ++ [.cpu .receiveIpi, .wake, .finishNext])
    (fun s => s.slot.any (fun slot => s.now.nanos < slot.1.nanos + slot.2.offset.nanos))
    (by decide +kernel)
  have haccepted : ∀ a ∈ untilWait ++ [.cpu .receiveIpi, .wake, .finishNext], ∀ s, EnactsAccepted s a := by
    simp only [untilWait, List.cons_append, List.nil_append, List.forall_mem_cons, List.not_mem_nil,
      false_implies, implies_true, and_true, EnactsAccepted, true_and]
    intro _
    exact ⟨.insertionSort _, .insertionSort _, .fromNanos 4, secondHalf.table, by decide, rfl⟩
  simp only [Option.any_eq_true, decide_eq_true_eq] at hearly
  obtain ⟨⟨datum, entry⟩, hslot, hlt⟩ := hearly
  have hbegun := hall _ s (hrun.restrict haccepted) datum entry hslot
  exact absurd hlt (Nat.not_lt.mpr hbegun)

end TimedCpu

end Jrinx
