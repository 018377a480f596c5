import Jrinx.Hal.Timer
import Jrinx.TimedEvent.Tracker

/-!
This module contains the handler of the timer interrupt from `trap/src/timer_int.rs`, on top of the
timed events of all CPUs.
-/

namespace Jrinx

open Std

variable {F : Type}

inductive HandlePc where
  | peek
  -- It waits for the return of its call of `timeout`.
  | timeout (call : Nat)
  | test
  deriving DecidableEq, Repr

structure Harts (F : Type) where
  events : TimedEvents F
  freq : Nat
  ticks : Nat → Nat
  -- The activations on a hart, the innermost first. They are nested if a closure enables the
  -- interrupts.
  handlers : Nat → List HandlePc

inductive HartAction (F : Type) where
  -- Something is done with a timed event, by a handler or by other code.
  | events (a : TimedEventAction F)
  | tick (cpuId ticks : Nat)
  | interrupt (cpuId : Nat)
  | peek (cpuId : Nat)
  | resume (cpuId : Nat)
  | test (cpuId : Nat)

namespace Harts

def init (freq : Nat) (ticks : Nat → Nat) : Harts F where
  events := .init
  freq
  ticks
  handlers _ := []

def timer (s : Harts F) (cpuId : Nat) : Nat := Cpu.timerTicks s.freq (s.events.timers cpuId)

def isTimerPending (s : Harts F) (cpuId : Nat) : Bool := s.timer cpuId ≤ s.ticks cpuId

def setHandlers (s : Harts F) (cpuId : Nat) (handlers : List HandlePc) : Harts F :=
  { s with handlers := fun i => if i = cpuId then handlers else s.handlers i }

def setTimer (s : Harts F) (cpuId : Nat) (next : Duration) : Harts F :=
  {
    s with
    events := { s.events with timers := fun i => if i = cpuId then next else s.events.timers i }
  }

def peek (s : Harts F) (cpuId : Nat) (outer : List HandlePc) : Outcome (Harts F) :=
  match (s.events.queues cpuId).peekOutdated (Cpu.getTime s.freq (s.ticks cpuId)) with
  | .next (some tracker) =>
    (s.events.start cpuId tracker.id .timeout).map fun events =>
      { s with events }.setHandlers cpuId (.timeout s.events.calls.length :: outer)
  | .next none => .next (s.setHandlers cpuId (.test :: outer))
  | .panic => .panic
  | .disabled => .disabled

def test (s : Harts F) (cpuId : Nat) (outer : List HandlePc) : Harts F :=
  if s.isTimerPending cpuId then
    (s.setTimer cpuId .max).setHandlers cpuId outer
  else
    s.setHandlers cpuId outer

def step (s : Harts F) (a : HartAction F) : Outcome (Harts F) :=
  match a with
  | .events a => (s.events.step a).map fun events => { s with events }
  | .tick cpuId ticks =>
    if s.ticks cpuId ≤ ticks ∧ ticks < 2 ^ 64 then
      .next { s with ticks := fun i => if i = cpuId then ticks else s.ticks i }
    else
      .disabled
  | .interrupt cpuId =>
    if s.isTimerPending cpuId then
      .next (s.setHandlers cpuId (.peek :: s.handlers cpuId))
    else
      .disabled
  | .peek cpuId =>
    match s.handlers cpuId with
    | .peek :: outer => s.peek cpuId outer
    | _ => .disabled
  | .resume cpuId =>
    match s.handlers cpuId with
    | .timeout i :: outer =>
      match s.events.calls[i]?.map Call.pc with
      -- An error is only logged, the loop goes on with the next event.
      | some (.returned _) => .next (s.setHandlers cpuId (.peek :: outer))
      | _ => .disabled
    | _ => .disabled
  | .test cpuId =>
    match s.handlers cpuId with
    | .test :: outer => .next (s.test cpuId outer)
    | _ => .disabled

variable {s s' : Harts F} {cpuId : Nat}

@[simp]
theorem setHandlers_self (handlers : List HandlePc)
    : (s.setHandlers cpuId handlers).handlers cpuId = handlers := by
  simp [setHandlers]

@[simp]
theorem setHandlers_events (handlers : List HandlePc)
    : (s.setHandlers cpuId handlers).events = s.events := rfl

theorem step_tick {ticks : Nat} (hstep : s.step (.tick cpuId ticks) = .next s')
    : s' = { s with ticks := fun i => if i = cpuId then ticks else s.ticks i } := by
  simp only [step] at hstep
  split at hstep
  . simpa only [Outcome.next.injEq] using hstep.symm
  . simp at hstep

theorem step_interrupt (hstep : s.step (.interrupt cpuId) = .next s')
    : s' = s.setHandlers cpuId (.peek :: s.handlers cpuId) := by
  simp only [step] at hstep
  split at hstep
  . simpa only [Outcome.next.injEq] using hstep.symm
  . simp at hstep

theorem step_peek (hstep : s.step (.peek cpuId) = .next s')
    : ∃ outer, s.handlers cpuId = .peek :: outer ∧ s.peek cpuId outer = .next s' := by
  simp only [step] at hstep
  split at hstep
  . next outer hpc => exact ⟨outer, hpc, hstep⟩
  . simp at hstep

theorem step_resume (hstep : s.step (.resume cpuId) = .next s')
    : ∃ i outer call result, s.handlers cpuId = .timeout i :: outer ∧ s.events.calls[i]? = some call ∧
        call.pc = .returned result ∧ s' = s.setHandlers cpuId (.peek :: outer) := by
  simp only [step] at hstep
  split at hstep
  . next i outer hpc =>
    split at hstep
    . next result hreturned =>
      obtain ⟨call, hcall, hresult⟩ := Option.map_eq_some_iff.mp hreturned
      simp only [Outcome.next.injEq] at hstep
      exact ⟨i, outer, call, result, hpc, hcall, hresult, hstep.symm⟩
    . simp at hstep
  . simp at hstep

theorem step_test (hstep : s.step (.test cpuId) = .next s')
    : ∃ outer, s.handlers cpuId = .test :: outer ∧ s' = s.test cpuId outer := by
  simp only [step] at hstep
  split at hstep
  . next outer hpc =>
    simp only [Outcome.next.injEq] at hstep
    exact ⟨outer, hpc, hstep.symm⟩
  . simp at hstep

end Harts

end Jrinx
