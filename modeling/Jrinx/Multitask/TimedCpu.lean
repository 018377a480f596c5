import Jrinx.Hal.Timer
import Jrinx.Multitask.LoopStep
import Jrinx.TimedEvent.Queue

/-!
This module contains a CPU together with its clock, its timer and its timed events. `sched_next` takes
several steps here: it may have to wait for the start of a slot, and it creates the event that
pre-empts the inspector at the end of the slot.

The interrupts are disabled inside of `sched_next`. They are enabled inside of a visit and around the
`wfi` at the endpoint, and that is where the handler of the timer interrupt runs.
-/

namespace Jrinx

open Std

inductive SchedNextPc where
  -- `sched_next` does not run.
  | idle
  -- It is in `wait`.
  | waiting
  -- The wait is over, or there was nothing to wait for.
  | ready
  deriving DecidableEq, Repr

structure TimedCpu where
  cpu : Cpu
  freq : Nat
  ticks : Nat
  timer : Duration
  externalPending : Bool
  events : TimedEventQueue
  nextId : Nat
  schedNext : SchedNextPc
  -- The inspectors of the slots whose ends are events.
  slotEnds : TimedEventId → Option InspectorId
  -- What `sched_next` has returned last, with the start of its frame.
  slot : Option (Duration × RuntimeSchedTableEntry)

inductive TimedCpuAction where
  | cpu (a : CpuAction)
  -- `sched_next` up to the wait, the end of the wait, and the rest of `sched_next`.
  | beginNext
  | wake
  | finishNext
  -- The handler of the timer interrupt takes the first event, or finds that there is none.
  | fire
  | silence
  -- Other code on this CPU creates or cancels an event.
  | create (time : Duration)
  | cancel (id : TimedEventId)
  -- Another CPU creates an event of its own or cancels one of this CPU.
  | createElsewhere
  | cancelElsewhere (id : TimedEventId)
  | tick
  | external (pending : Bool)

def RuntimeOp.exclusive (op : RuntimeOp) : Bool :=
  match op with
  | .register _ _ _ | .unregister _ | .enactSchedTable _ | .revokeSchedTable => true
  | _ => false

def RuntimePc.interruptible (pc : RuntimePc) : Bool :=
  match pc with
  | .visit _ _ _ | .wfi | .disableInt => true
  | _ => false

namespace TimedCpu

def boot (freq : Nat) : TimedCpu where
  cpu := .boot
  freq
  ticks := 0
  timer := .max
  externalPending := false
  events := .new
  nextId := 1
  schedNext := .idle
  slotEnds := fun _ => none
  slot := none

def now (s : TimedCpu) : Duration := Cpu.getTime s.freq s.ticks

def timerPending (s : TimedCpu) : Bool := Cpu.timerTicks s.freq s.timer ≤ s.ticks

def create (s : TimedCpu) (time : Duration) (slotEnd : Option InspectorId) : TimedCpu :=
  let id : TimedEventId := ⟨s.nextId⟩
  let events := s.events.add { id, cpuId := 0, time }
  {
    s with
    events
    timer := events.deadline
    nextId := s.nextId + 1
    slotEnds := Function.update s.slotEnds id slotEnd
  }

def nextSlot (s : TimedCpu) : Option (RuntimeSchedTable × RuntimeSchedTableEntry × Duration) :=
  s.cpu.rt.schedTable.bind fun t =>
    t.table[t.next]?.bind fun entry =>
      (t.datum.add entry.offset).map fun start => (t, entry, start)

def beginNext (s : TimedCpu) : Outcome TimedCpu :=
  match s.nextSlot with
  | none => .panic
  | some (_, _, start) =>
    if s.now < start then
      .next { s.create start none with schedNext := .waiting }
    else
      .next { s with schedNext := .ready }

def finishNext (s : TimedCpu) : Outcome TimedCpu :=
  match s.nextSlot with
  | none => .panic
  | some (t, entry, start) =>
    match start.add entry.duration with
    | none => .panic
    | some stop =>
      (s.cpu.step .run).map fun cpu =>
        {
          s.create stop (some entry.inspectorId) with
          cpu
          schedNext := .idle
          slot := some (t.datum, entry)
        }

def markCurrentPending (c : Cpu) : Outcome Cpu :=
  .unwrap (c.rt.withCurrentInspector fun is => (is.markPending, is.markPending.toOption.getD is))
    fun (result, rt) => .unwrap result fun _ => .next { c with rt }

def slotEnd (c : Cpu) : Outcome Cpu :=
  match markCurrentPending c with
  | .next c =>
    match c.yield with
    | .next c => .next c
    -- Without an executor that is switched in, the context of the loop to switch to is an old one.
    | _ => .panic
  | _ => .panic

def removed (s : TimedCpu) (events : TimedEventQueue) : TimedCpu :=
  { s with events, timer := events.deadline }

def fire (s : TimedCpu) : Outcome TimedCpu :=
  match s.events.peekOutdated s.now with
  | .next (some tracker) =>
    match s.events.remove tracker.id with
    | .ok events =>
      match s.slotEnds tracker.id with
      | none => .next (s.removed events)
      | some _ => (slotEnd s.cpu).map fun cpu => { s.removed events with cpu }
    -- Only a warning is logged.
    | .error _ => .next s
  | .next none => .disabled
  | .panic => .panic
  | .disabled => .disabled

def cpuEnabled (s : TimedCpu) (a : CpuAction) : Bool :=
  match s.schedNext with
  | .idle =>
    match a with
    | .run => !(decide (s.cpu.pc = .tableNext) && s.cpu.rt.schedTable.isSome)
    | .startTable now => now = s.now
    | _ => true
  | _ =>
    -- The loop is inside of `sched_next` and holds the lock of the scheduler as a reader.
    match a with
    | .op op => !op.exclusive
    | .receiveIpi => true
    | _ => false

def step (s : TimedCpu) (a : TimedCpuAction) : Outcome TimedCpu :=
  match a with
  | .cpu a =>
    if s.cpuEnabled a then (s.cpu.step a).map fun cpu => { s with cpu } else .disabled
  | .beginNext =>
    if s.cpu.pc = .tableNext ∧ s.schedNext = .idle ∧ s.cpu.rt.schedTable.isSome then s.beginNext
    else .disabled
  | .wake =>
    if s.schedNext = .waiting ∧ (s.timerPending || s.cpu.softPending || s.externalPending) then
      .next { s with schedNext := .ready }
    else
      .disabled
  | .finishNext => if s.schedNext = .ready then s.finishNext else .disabled
  | .fire => if s.cpu.pc.interruptible then s.fire else .disabled
  | .silence =>
    if s.cpu.pc.interruptible ∧ s.timerPending ∧ s.events.peekOutdated s.now = .next none then
      .next { s with timer := .max }
    else
      .disabled
  | .create time => if s.schedNext = .idle then .next (s.create time none) else .disabled
  | .cancel id =>
    if s.schedNext = .idle then
      match s.events.remove id with
      | .ok events => .next (s.removed events)
      | .error _ => .next s
    else
      .disabled
  | .createElsewhere => .next { s with nextId := s.nextId + 1 }
  | .cancelElsewhere id =>
    match s.events.remove id with
    | .ok events => .next { s with events }
    | .error _ => .next s
  -- The clock does not go backwards.
  | .tick =>
    if s.now ≤ Cpu.getTime s.freq (s.ticks + 1) then .next { s with ticks := s.ticks + 1 } else .disabled
  | .external pending => .next { s with externalPending := pending }

/--
Only tables that `RuntimeSchedTable::new` has accepted are enacted.
-/
def EnactsAccepted (_ : TimedCpu) (a : TimedCpuAction) : Prop :=
  match a with
  | .cpu (.op (.enactSchedTable table)) =>
    ∃ sortByOffset sortByIdAndOffset frameSize entries, entries ≠ [] ∧
      RuntimeSchedTable.new sortByOffset sortByIdAndOffset frameSize entries = .next (.ok table)
  | _ => True

inductive TimedStep (s : TimedCpu) : TimedCpuAction → TimedCpu → Prop where
  | cpu {a : CpuAction} {c : Cpu} (henabled : s.cpuEnabled a = true) (hstep : s.cpu.step a = .next c)
      : TimedStep s (.cpu a) { s with cpu := c }
  | wait {t : RuntimeSchedTable} {entry : RuntimeSchedTableEntry} {start : Duration}
      (hpc : s.cpu.pc = .tableNext) (hidle : s.schedNext = .idle)
      (hslot : s.nextSlot = some (t, entry, start)) (hlt : s.now < start)
      : TimedStep s .beginNext { s.create start none with schedNext := .waiting }
  | noWait {t : RuntimeSchedTable} {entry : RuntimeSchedTableEntry} {start : Duration}
      (hpc : s.cpu.pc = .tableNext) (hidle : s.schedNext = .idle)
      (hslot : s.nextSlot = some (t, entry, start)) (hle : ¬ s.now < start)
      : TimedStep s .beginNext { s with schedNext := .ready }
  | wake (hwaiting : s.schedNext = .waiting)
      (hwakes : (s.timerPending || s.cpu.softPending || s.externalPending) = true)
      : TimedStep s .wake { s with schedNext := .ready }
  | finish {t : RuntimeSchedTable} {entry : RuntimeSchedTableEntry} {start stop : Duration} {c : Cpu}
      (hready : s.schedNext = .ready) (hslot : s.nextSlot = some (t, entry, start))
      (hstop : start.add entry.duration = some stop) (hstep : s.cpu.step .run = .next c)
      : TimedStep s .finishNext
          {
            s.create stop (some entry.inspectorId) with
            cpu := c
            schedNext := .idle
            slot := some (t.datum, entry)
          }
  | slotEnd {tracker : TimedEventTracker} {events : TimedEventQueue} {id : InspectorId} {c c' : Cpu}
      (hpc : s.cpu.pc.interruptible = true)
      (hpeek : s.events.peekOutdated s.now = .next (some tracker))
      (hremove : s.events.remove tracker.id = .ok events) (hend : s.slotEnds tracker.id = some id)
      (hmark : markCurrentPending s.cpu = .next c) (hyield : c.yield = .next c')
      : TimedStep s .fire { s.removed events with cpu := c' }
  | remove {a : TimedCpuAction} {id : TimedEventId} {events : TimedEventQueue} {timer : Duration}
      (htimer : s.schedNext ≠ .idle → s.cpu.pc.interruptible = false → timer = s.timer)
      (hremove : s.events.remove id = .ok events)
      : TimedStep s a { s with events, timer }
  | same {a : TimedCpuAction} : TimedStep s a s
  | silence (hpc : s.cpu.pc.interruptible = true) : TimedStep s .silence { s with timer := .max }
  | create {time : Duration} (hidle : s.schedNext = .idle) : TimedStep s (.create time) (s.create time none)
  | createElsewhere : TimedStep s .createElsewhere { s with nextId := s.nextId + 1 }
  | tick (hle : s.now ≤ Cpu.getTime s.freq (s.ticks + 1))
      : TimedStep s .tick { s with ticks := s.ticks + 1 }
  | external (pending : Bool) : TimedStep s (.external pending) { s with externalPending := pending }

variable {s s' : TimedCpu}

theorem step_of_locked {a : CpuAction} {c : Cpu} (hlocked : s.schedNext ≠ .idle)
    (henabled : s.cpuEnabled a = true) (hstep : s.cpu.step a = .next c)
    : c.pc = s.cpu.pc ∧ c.rt.schedTable = s.cpu.rt.schedTable := by
  have hcases : (∃ op, a = .op op ∧ op.exclusive = false) ∨ a = .receiveIpi := by
    unfold cpuEnabled at henabled
    split at henabled
    next hidle => exact absurd hidle hlocked
    next =>
      split at henabled
      next op => exact .inl ⟨op, rfl, by simpa using henabled⟩
      next => exact .inr rfl
      next => simp at henabled
  rcases hcases with ⟨op, rfl, hop⟩ | rfl
  . simp only [Cpu.step, Outcome.next.injEq] at hstep
    subst hstep
    refine ⟨rfl, ?_⟩
    cases op with
    | registerExecutor id executor => exact (Runtime.inner_tryInspector _ _ _).schedTable
    | unregisterExecutor id executorId => exact (Runtime.inner_tryInspector _ _ _).schedTable
    | markPending id => exact (Runtime.inner_tryInspector _ _ _).schedTable
    | wake id executorId waker => exact (Runtime.inner_tryInspector _ _ _).schedTable
    | _ => simp [RuntimeOp.exclusive] at hop
  . simp only [Cpu.step, Outcome.next.injEq] at hstep
    subst hstep
    exact ⟨rfl, rfl⟩

theorem slotEnd_eq_next {c c' : Cpu} (h : TimedCpu.slotEnd c = .next c')
    : ∃ c'', markCurrentPending c = .next c'' ∧ c''.yield = .next c' := by
  unfold TimedCpu.slotEnd at h
  split at h
  next c'' hmark =>
    split at h
    next hyield =>
      simp only [Outcome.next.injEq] at h
      subst h
      exact ⟨c'', hmark, hyield⟩
    next => simp at h
  next => simp at h

theorem timedStep_fire (hpc : s.cpu.pc.interruptible = true) (h : s.fire = .next s')
    : TimedStep s .fire s' := by
  unfold TimedCpu.fire at h
  split at h
  next tracker hpeek =>
    split at h
    next events hremove =>
      split at h
      next =>
        simp only [Outcome.next.injEq] at h
        subst h
        apply TimedStep.remove _ hremove
        intro _ hnot
        simp [hnot] at hpc
      next id hend =>
        obtain ⟨c, hc, rfl⟩ := Outcome.map_eq_next h
        obtain ⟨c'', hmark, hyield⟩ := slotEnd_eq_next hc
        exact .slotEnd hpc hpeek hremove hend hmark hyield
    next =>
      simp only [Outcome.next.injEq] at h
      subst h
      exact .same
  next => simp at h
  next => simp at h
  next => simp at h

theorem timedStep_beginNext (hpc : s.cpu.pc = .tableNext) (hidle : s.schedNext = .idle)
    (h : s.beginNext = .next s')
    : TimedStep s .beginNext s' := by
  unfold TimedCpu.beginNext at h
  split at h
  next => simp at h
  next t entry start hslot =>
    split at h
    next hlt =>
      simp only [Outcome.next.injEq] at h
      subst h
      exact .wait hpc hidle hslot hlt
    next hle =>
      simp only [Outcome.next.injEq] at h
      subst h
      exact .noWait hpc hidle hslot hle

theorem timedStep_finishNext (hready : s.schedNext = .ready) (h : s.finishNext = .next s')
    : TimedStep s .finishNext s' := by
  unfold TimedCpu.finishNext at h
  split at h
  next => simp at h
  next t entry start hslot =>
    split at h
    next => simp at h
    next stop hstop =>
      obtain ⟨c, hc, rfl⟩ := Outcome.map_eq_next h
      exact .finish hready hslot hstop hc

theorem timedStep {a : TimedCpuAction} (h : s.step a = .next s') : TimedStep s a s' := by
  cases a with
  | cpu a =>
    simp only [step] at h
    split at h
    next henabled =>
      obtain ⟨c, hc, rfl⟩ := Outcome.map_eq_next h
      exact .cpu henabled hc
    next => simp at h
  | beginNext =>
    simp only [step] at h
    split at h
    next hcond => exact timedStep_beginNext hcond.1 hcond.2.1 h
    next => simp at h
  | wake =>
    simp only [step] at h
    split at h
    next hcond =>
      simp only [Outcome.next.injEq] at h
      subst h
      exact .wake hcond.1 hcond.2
    next => simp at h
  | finishNext =>
    simp only [step] at h
    split at h
    next hready => exact timedStep_finishNext hready h
    next => simp at h
  | fire =>
    simp only [step] at h
    split at h
    next hpc => exact timedStep_fire hpc h
    next => simp at h
  | silence =>
    simp only [step] at h
    split at h
    next hcond =>
      simp only [Outcome.next.injEq] at h
      subst h
      exact .silence hcond.1
    next => simp at h
  | create time =>
    simp only [step] at h
    split at h
    next hidle =>
      simp only [Outcome.next.injEq] at h
      subst h
      exact .create hidle
    next => simp at h
  | cancel id =>
    simp only [step] at h
    split at h
    next hidle =>
      split at h
      next hremove =>
        simp only [Outcome.next.injEq] at h
        subst h
        apply TimedStep.remove _ hremove
        intro hnot
        exact absurd hidle hnot
      next =>
        simp only [Outcome.next.injEq] at h
        subst h
        exact .same
    next => simp at h
  | createElsewhere =>
    simp only [step, Outcome.next.injEq] at h
    subst h
    exact .createElsewhere
  | cancelElsewhere id =>
    simp only [step] at h
    split at h
    next hremove =>
      simp only [Outcome.next.injEq] at h
      subst h
      exact .remove (fun _ _ => rfl) hremove
    next =>
      simp only [Outcome.next.injEq] at h
      subst h
      exact .same
  | tick =>
    simp only [step] at h
    split at h
    next hle =>
      simp only [Outcome.next.injEq] at h
      subst h
      exact .tick hle
    next => simp at h
  | external pending =>
    simp only [step, Outcome.next.injEq] at h
    subst h
    exact .external pending

end TimedCpu

end Jrinx
