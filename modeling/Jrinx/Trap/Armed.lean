import Jrinx.TimedEvent.Step
import Jrinx.Trap.TimerInt

/-!
This module contains the proof of what it takes for the handler of the timer interrupt to leave the
timer of its hart armed.
-/

namespace Jrinx

open Std

variable {F : Type}

namespace Harts

/--
The timer fires at the earliest event in the queue of the hart or before it. The tick `t` is reached
`t * 10 ^ 9 / freq` nanoseconds after the start.
-/
def Armed (s : Harts F) (cpuId : Nat) : Prop :=
  ∀ e ∈ (s.events.queues cpuId).queue, s.timer cpuId * 10 ^ 9 ≤ e.1.nanos * s.freq

def FarAway (s : Harts F) (cpuId : Nat) : Prop :=
  ∀ e ∈ (s.events.queues cpuId).queue, Cpu.timerTicks s.freq .max * 10 ^ 9 ≤ e.1.nanos * s.freq

instance (s : Harts F) (cpuId : Nat) : Decidable (s.FarAway cpuId) :=
  inferInstanceAs (Decidable (∀ e ∈ (s.events.queues cpuId).queue, _ ≤ _))

def RemovesOwn (s : TimedEvents F) (cpuId i : Nat) : Prop :=
  match s.calls[i]? with
  | some call =>
    match s.events[call.id]? with
    | some event => call.cpuId = cpuId → event.tracker.cpuId = cpuId
    | none => True
  | none => True

instance (s : TimedEvents F) (cpuId i : Nat) : Decidable (RemovesOwn s cpuId i) := by
  unfold RemovesOwn
  split
  . split <;> infer_instance
  . infer_instance

/--
No event of another CPU is removed by code on the hart, and whenever the handler tests whether the
timer is pending, it is not or the remaining events are far away.
-/
def Allowed (cpuId : Nat) (s : Harts F) (a : HartAction F) : Prop :=
  match a with
  | .events (.remove i) => RemovesOwn s.events cpuId i
  | .test i => i = cpuId → s.isTimerPending cpuId = true → s.FarAway cpuId
  | _ => True

instance (cpuId : Nat) (s : Harts F) (a : HartAction F) : Decidable (Allowed cpuId s a) := by
  induction a using HartAction.casesOn with
  | events a =>
    induction a using TimedEventAction.casesOn with
    | remove i => exact inferInstanceAs (Decidable (RemovesOwn s.events cpuId i))
    | _ => exact isTrue trivial
  | test i =>
    exact inferInstanceAs (Decidable (i = cpuId → s.isTimerPending cpuId = true → s.FarAway cpuId))
  | _ => exact isTrue trivial

variable {s s' : Harts F} {cpuId : Nat}

theorem armed_init (freq : Nat) (ticks : Nat → Nat) : (init freq ticks : Harts F).Armed cpuId := by
  simp [Armed, init, TimedEvents.init, TimedEventQueue.new]

theorem Armed.of_eq (h : s.Armed cpuId) (hfreq : s'.freq = s.freq)
    (htimer : s'.events.timers cpuId = s.events.timers cpuId)
    (hqueue : (s'.events.queues cpuId).queue ⊆ (s.events.queues cpuId).queue)
    : s'.Armed cpuId := by
  intro e he
  unfold timer
  rw [hfreq, htimer]
  exact h e (hqueue he)

theorem armed_of_deadline (htimer : s.events.timers cpuId = (s.events.queues cpuId).deadline)
    : s.Armed cpuId := by
  intro e he
  unfold timer
  rw [htimer]
  calc
    Cpu.timerTicks s.freq (s.events.queues cpuId).deadline * 10 ^ 9
      ≤ (s.events.queues cpuId).deadline.nanos * s.freq := Cpu.timerTicks_le _ _
    _ ≤ e.1.nanos * s.freq := Nat.mul_le_mul_right _ (TimedEventQueue.deadline_le he)

theorem Armed.setQueue {events : TimedEvents F} {owner current : Nat} {q : TimedEventQueue}
    (h : s.Armed cpuId) (hown : current = cpuId → owner = cpuId)
    (hqueue : current ≠ owner → q.queue ⊆ (s.events.queues owner).queue)
    (hqueues : events.queues = (s.events.setQueue owner current q).queues)
    (htimers : events.timers = (s.events.setQueue owner current q).timers)
    : Armed { s with events } cpuId := by
  by_cases hcurrent : cpuId = current
  . subst hcurrent
    have howner := hown rfl
    subst howner
    apply armed_of_deadline
    simp [hqueues, htimers, TimedEvents.setQueue]
  . refine h.of_eq rfl ?_ ?_
    . simp [htimers, TimedEvents.setQueue, hcurrent]
    . simp only [hqueues, TimedEvents.setQueue]
      split
      . next howner =>
        rw [howner] at hcurrent ⊢
        exact hqueue (Ne.symm hcurrent)
      . exact List.Subset.refl _

theorem Armed.events {events : TimedEvents F} {a : TimedEventAction F} (h : s.Armed cpuId)
    (hallowed : Allowed cpuId s (.events a)) (hstep : s.events.Step a events)
    : Armed { s with events } cpuId := by
  cases hstep with
  | create i time handler =>
    apply h.setQueue (fun heq => heq) (fun hne => absurd rfl hne) rfl rfl
  | @removed _ call event q hcall hpc hevent hok =>
    simp only [Allowed, RemovesOwn, hcall, hevent] at hallowed
    exact h.setQueue hallowed (fun _ => TimedEventQueue.remove_queue_subset hok) rfl rfl
  | start | gone | taken | func | finish | invoked => exact h.of_eq rfl rfl (List.Subset.refl _)

theorem armed_test_iff {outer : List HandlePc} (h : s.Armed cpuId)
    : (s.test cpuId outer).Armed cpuId ↔ (s.isTimerPending cpuId = true → s.FarAway cpuId) := by
  unfold test
  split
  . next hpending => simp [Armed, FarAway, timer, setTimer, setHandlers, hpending]
  . next hpending =>
    simp only [hpending, Bool.false_eq_true, false_implies, iff_true]
    exact h.of_eq rfl rfl (List.Subset.refl _)

theorem Armed.test_of_ne {i : Nat} {outer : List HandlePc} (h : s.Armed cpuId) (hne : i ≠ cpuId)
    : (s.test i outer).Armed cpuId := by
  unfold Harts.test
  split
  . refine h.of_eq rfl ?_ (List.Subset.refl _)
    simp [setTimer, setHandlers, Ne.symm hne]
  . exact h.of_eq rfl rfl (List.Subset.refl _)

structure Invariant (cpuId : Nat) (s : Harts F) : Prop where
  bounded : s.events.Bounded
  queued : s.events.Queued
  armed : s.Armed cpuId

theorem Invariant.events {events : TimedEvents F} {a : TimedEventAction F} (h : Invariant cpuId s)
    (hallowed : Allowed cpuId s (.events a)) (hstep : s.events.Step a events)
    : Invariant cpuId { s with events } := by
  constructor
  . exact h.bounded.step hstep
  . exact h.queued.step h.bounded hstep
  . exact h.armed.events hallowed hstep

theorem Invariant.setHandlers (h : Invariant cpuId s) (i : Nat) (handlers : List HandlePc)
    : Invariant cpuId (s.setHandlers i handlers) :=
  ⟨h.bounded, h.queued, h.armed⟩

theorem Invariant.peek {i : Nat} {outer : List HandlePc} (h : Invariant cpuId s)
    (hpeek : s.peek i outer = .next s')
    : Invariant cpuId s' := by
  unfold Harts.peek at hpeek
  split at hpeek
  . next tracker _ =>
    obtain ⟨events, hstart, rfl⟩ := Outcome.map_eq_next hpeek
    apply Invariant.setHandlers
    exact h.events (a := .timeout i tracker.id) trivial (TimedEvents.step_start (by simp) hstart)
  . simp only [Outcome.next.injEq] at hpeek
    subst hpeek
    exact h.setHandlers _ _
  . simp at hpeek
  . simp at hpeek

theorem Invariant.test {i : Nat} {outer : List HandlePc} (h : Invariant cpuId s)
    (hallowed : Allowed cpuId s (.test i))
    : Invariant cpuId (s.test i outer) := by
  have harmed : (s.test i outer).Armed cpuId := by
    by_cases heq : i = cpuId
    . subst heq
      rw [armed_test_iff h.armed]
      exact hallowed rfl
    . exact h.armed.test_of_ne heq
  refine ⟨?_, ?_, harmed⟩
  . unfold Harts.test
    split
    . exact ⟨h.bounded.events, h.bounded.calls, h.bounded.ran⟩
    . exact h.bounded
  . unfold Harts.test
    split
    . exact ⟨h.queued.wf, h.queued.created⟩
    . exact h.queued

theorem Invariant.step {a : HartAction F} (h : Invariant cpuId s) (hallowed : Allowed cpuId s a)
    (hstep : s.step a = .next s')
    : Invariant cpuId s' := by
  cases a with
  | events a =>
    obtain ⟨events, hevents, rfl⟩ := Outcome.map_eq_next hstep
    exact h.events hallowed (TimedEvents.step_cases hevents)
  | tick i ticks =>
    obtain rfl := step_tick hstep
    exact ⟨h.bounded, h.queued, h.armed⟩
  | interrupt i =>
    obtain rfl := step_interrupt hstep
    exact h.setHandlers _ _
  | peek i =>
    obtain ⟨outer, _, hpeek⟩ := step_peek hstep
    exact h.peek hpeek
  | resume i =>
    obtain ⟨_, outer, _, _, _, _, _, rfl⟩ := step_resume hstep
    exact h.setHandlers _ _
  | test i =>
    obtain ⟨outer, _, rfl⟩ := step_test hstep
    exact h.test hallowed

theorem invariant_of_run {freq : Nat} {ticks : Nat → Nat} {as : List (HartAction F)}
    (hrun : Run step (Allowed cpuId) (init freq ticks) as s)
    : Invariant cpuId s := by
  apply hrun.invariant (Invariant cpuId)
  . exact ⟨TimedEvents.bounded_init, TimedEvents.queued_init, armed_init freq ticks⟩
  . intro s s' a h hallowed hstep
    exact h.step hallowed hstep

theorem Invariant.peek_next {outer : List HandlePc} (h : Invariant cpuId s)
    (hpc : s.handlers cpuId = .peek :: outer)
    : ∃ s', s.step (.peek cpuId) = .next s' := by
  simp only [Harts.step, hpc, Harts.peek, TimedEventQueue.peekOutdated]
  rcases (h.queued.wf cpuId).peek with ⟨_, hpeek⟩ | ⟨id, tracker, hpeek, hget, _⟩
  . simp [hpeek]
  . obtain ⟨hid, hmem⟩ := h.queued.created cpuId id tracker hget
    simp only [hpeek, Outcome.map_next, Option.filter_some]
    split <;> simp_all [TimedEvents.start]

/--
In every state of a run in which code on the hart leaves the events of the other CPUs alone and the
handler finds no pending timer with events left that are not far away, the timer is armed. In
particular it is when the handler returns, and in such a state the condition for the return is exact.
-/
theorem armed_of_run {freq : Nat} {ticks : Nat → Nat} {as : List (HartAction F)}
    (hrun : Run step (Allowed cpuId) (init freq ticks) as s)
    : s.Armed cpuId ∧
        (∀ outer, s.handlers cpuId = .peek :: outer → ∃ s', s.step (.peek cpuId) = .next s') ∧
        ∀ s', s.step (.test cpuId) = .next s' →
          (s'.Armed cpuId ↔ (s.isTimerPending cpuId = true → s.FarAway cpuId)) := by
  have h := invariant_of_run hrun
  refine ⟨h.armed, fun outer hpc => h.peek_next hpc, ?_⟩
  intro s' hstep
  obtain ⟨outer, _, rfl⟩ := step_test hstep
  exact armed_test_iff h.armed

def firstHandled (first second : Duration) : List (HartAction Nat) :=
  -- Two events on a hart with a timebase of 10 MHz. The first of them is handled at the tick 1,
  -- then the handler returns.
  [.events (.create 0 first ⟨7, 8⟩), .events (.create 0 second ⟨7, 8⟩), .tick 0 1, .interrupt 0, .peek 0,
    .events (.remove 0), .events (.invoke 0), .events (.func 0), .events (.finish 0), .resume 0, .peek 0,
    .test 0]

theorem armed_nextTick
    : ∃ s, Run step (Allowed 0) (init (10 ^ 7) (fun _ => 0))
          (firstHandled ⟨100, by decide⟩ ⟨200, by decide⟩) s ∧
        s.handlers 0 = [] ∧ (s.events.queues 0).queue.length = 1 ∧ s.Armed 0 := by
  obtain ⟨s, hrun, hs⟩ := exists_run_of_exec (checked step (Allowed 0)) (init (10 ^ 7) (fun _ => 0))
    (firstHandled ⟨100, by decide⟩ ⟨200, by decide⟩)
    (fun s => s.handlers 0 = [] && (s.events.queues 0).queue.length = 1)
    (by decide +kernel)
  simp only [Bool.and_eq_true, decide_eq_true_eq] at hs
  exact ⟨s, hrun.of_checked, hs.1, hs.2, (armed_of_run hrun.of_checked).1⟩

theorem armed_sameTick_false
    : ¬ ∀ (freq : Nat) (ticks : Nat → Nat) (as : List (HartAction Nat)) (cpuId : Nat) (s : Harts Nat),
          Run step (fun _ _ => True) (init freq ticks) (as ++ [.test cpuId]) s → s.Armed cpuId := by
  intro hall
  obtain ⟨s, hrun, hs⟩ := exists_run_of_exec step (init (10 ^ 7) (fun _ => 0))
    (firstHandled ⟨100, by decide⟩ ⟨150, by decide⟩)
    (fun s => (s.events.queues 0).queue.any
      fun e => e.1.nanos * s.freq < s.timer 0 * 10 ^ 9)
    (by decide +kernel)
  simp only [List.any_eq_true, decide_eq_true_eq] at hs
  obtain ⟨e, he, hlt⟩ := hs
  have harmed := hall (10 ^ 7) (fun _ => 0)
    (firstHandled ⟨100, by decide⟩ ⟨150, by decide⟩).dropLast 0 s hrun e he
  omega

end Harts

end Jrinx
