import Jrinx.TimedEvent.Step

/-!
This module contains the proof of what it takes for the timer of every CPU to follow the queue of this
CPU: a removal programs the timer of the CPU it is made on, whatever the queue is.
-/

namespace Jrinx

open Std

variable {F : Type}

namespace TimedEvents

/--
The deadline that was programmed last is the time of the earliest event in the queue of the CPU, or
`Duration::MAX` if there is none.
-/
def Follows (s : TimedEvents F) (cpuId : Nat) : Prop :=
  if (s.queues cpuId).queue = [] then
    s.timers cpuId = .max
  else
    ∃ e ∈ (s.queues cpuId).queue, s.timers cpuId = e.1 ∧ ∀ e' ∈ (s.queues cpuId).queue, e.1 ≤ e'.1

def InStep (s : TimedEvents F) (owner current : Nat) (q : TimedEventQueue) : Prop :=
  current = owner ∨
    (q.deadline = (s.queues owner).deadline ∧ q.deadline = (s.queues current).deadline)

instance (s : TimedEvents F) (owner current : Nat) (q : TimedEventQueue)
    : Decidable (s.InStep owner current q) :=
  inferInstanceAs (Decidable (_ ∨ (_ ∧ _)))

/--
A call that finds its event in the queue is made on the CPU of the event. On another CPU, it has to
leave the earliest time in the queue as it is, and this must be the earliest time in the queue of the
caller too.
-/
def RemovesInStep (s : TimedEvents F) (i : Nat) : Prop :=
  ∀ call ∈ s.calls[i]?, ∀ event ∈ s.events[call.id]?,
    ∀ q ∈ ((s.queues event.tracker.cpuId).remove event.tracker.id).toOption,
      s.InStep event.tracker.cpuId call.cpuId q

instance (s : TimedEvents F) (i : Nat) : Decidable (s.RemovesInStep i) :=
  inferInstanceAs (Decidable (∀ call ∈ s.calls[i]?, ∀ event ∈ s.events[call.id]?,
    ∀ q ∈ ((s.queues event.tracker.cpuId).remove event.tracker.id).toOption, _))

def TimersAllowed (s : TimedEvents F) (a : TimedEventAction F) : Prop :=
  match a with
  | .remove i => s.RemovesInStep i
  | _ => True

instance (s : TimedEvents F) (a : TimedEventAction F) : Decidable (s.TimersAllowed a) := by
  induction a using TimedEventAction.casesOn with
  | remove i => exact inferInstanceAs (Decidable (s.RemovesInStep i))
  | _ => exact isTrue trivial

variable {s s' : TimedEvents F} {a : TimedEventAction F}

theorem follows_iff {cpuId : Nat}
    : s.Follows cpuId ↔ s.timers cpuId = (s.queues cpuId).deadline := by
  unfold Follows
  split
  . next hnil => rw [TimedEventQueue.deadline_of_nil hnil]
  . next hne =>
    obtain ⟨first, hmem, hfirst⟩ := TimedEventQueue.deadline_mem hne
    have hle : ∀ e ∈ (s.queues cpuId).queue, first.1 ≤ e.1 := by
      intro e he
      rw [← hfirst]
      exact TimedEventQueue.deadline_le he
    rw [hfirst]
    constructor
    . rintro ⟨e, he, htimer, hearliest⟩
      rw [htimer]
      have hge := hearliest first hmem
      have hle := hle e he
      rw [Duration.le_def] at hge hle
      exact Duration.eq_of_nanos (by omega)
    . intro htimer
      exact ⟨first, hmem, htimer, hle⟩

theorem follows_init (cpuId : Nat) : (init : TimedEvents F).Follows cpuId := by
  simp [Follows, init, TimedEventQueue.new]

theorem follows_setQueue_iff {owner current : Nat} {q : TimedEventQueue}
    (h : ∀ cpuId, s.Follows cpuId)
    : (∀ cpuId, (s.setQueue owner current q).Follows cpuId) ↔ s.InStep owner current q := by
  simp only [follows_iff, setQueue] at h ⊢
  constructor
  . intro hafter
    by_cases heq : current = owner
    . exact .inl heq
    . have hcurrent := hafter current
      have howner := hafter owner
      rw [if_pos rfl, if_neg heq] at hcurrent
      rw [if_neg (Ne.symm heq), if_pos rfl, h owner] at howner
      exact .inr ⟨howner.symm, hcurrent⟩
  . rintro (rfl | ⟨howner, hcurrent⟩) i
    . split
      . rfl
      . exact h i
    . by_cases hi : i = owner
      . subst hi
        rw [if_pos rfl]
        split
        . rfl
        . rw [h i, howner]
      . rw [if_neg hi]
        split
        . next hi => rw [hi, hcurrent]
        . exact h i

theorem follows_setPc {cpuId i : Nat} {pc : CallPc F}
    : (s.setPc i pc).Follows cpuId ↔ s.Follows cpuId := Iff.rfl

theorem follows_remove_iff {i : Nat} {call : Call F} {event : TimedEvent F}
    (h : ∀ cpuId, s.Follows cpuId) (hcall : s.calls[i]? = some call)
    (hevent : s.events[call.id]? = some event)
    : (∀ cpuId, (s.remove i call event).Follows cpuId) ↔ s.RemovesInStep i := by
  unfold TimedEvents.remove RemovesInStep
  simp only [hcall, hevent, Option.mem_def, Option.some.injEq, forall_eq']
  split
  . next q hok =>
    simp only [hok, Except.toOption, Option.some.injEq, forall_eq', follows_setPc]
    exact follows_setQueue_iff h
  . next e herror =>
    simp only [herror, Except.toOption, reduceCtorEq, false_implies, implies_true, follows_setPc, iff_true]
    exact h

theorem follows_step_remove_iff {i : Nat} (h : ∀ cpuId, s.Follows cpuId)
    (hstep : s.step (.remove i) = .next s')
    : (∀ cpuId, s'.Follows cpuId) ↔ s.RemovesInStep i := by
  obtain ⟨call, event, hcall, _, hevent, rfl⟩ := step_remove hstep
  exact follows_remove_iff h hcall hevent

theorem follows_create {cpuId : Nat} {time : Duration} {handler : TimedEventHandler F}
    (h : ∀ i, s.Follows i) (i : Nat)
    : (s.create cpuId time handler).Follows i :=
  (follows_setQueue_iff h).mpr (.inl rfl) i

theorem follows_step (h : ∀ cpuId, s.Follows cpuId) (hallowed : s.TimersAllowed a)
    (hstep : s.step a = .next s') (cpuId : Nat)
    : s'.Follows cpuId := by
  cases a with
  | remove i => exact (follows_step_remove_iff h hstep).mpr hallowed cpuId
  | create i time handler =>
    simp only [step, Outcome.next.injEq] at hstep
    subst hstep
    exact follows_create h cpuId
  | timeout | cancel | invoke | func | finish =>
    -- neither a queue nor a timer is touched
    cases step_cases hstep with
    | _ => exact h cpuId

/--
In every run in which the removals keep step, the timer of every CPU follows its queue. In such a state,
a removal leaves all the timers right if and only if it keeps step.
-/
theorem follows_of_run {as : List (TimedEventAction F)} (hrun : Run step TimersAllowed init as s)
    : (∀ cpuId, s.Follows cpuId) ∧
        ∀ i s', s.step (.remove i) = .next s' →
          ((∀ cpuId, s'.Follows cpuId) ↔ s.RemovesInStep i) := by
  have hfollows : ∀ cpuId, s.Follows cpuId := by
    apply hrun.invariant (fun s => ∀ cpuId, s.Follows cpuId) follows_init
    intro s s' a h hallowed hstep
    exact follows_step h hallowed hstep
  exact ⟨hfollows, fun i s' hstep => follows_step_remove_iff hfollows hstep⟩

def cancelledOn (cpuId : Nat) : List (TimedEventAction Nat) :=
  -- An event of the CPU 0 is cancelled by another CPU or by this one.
  [.create 0 ⟨100, by decide⟩ ⟨7, 8⟩, .create 1 ⟨200, by decide⟩ ⟨7, 8⟩, .cancel cpuId ⟨0⟩, .remove 0,
    .invoke 0, .func 0, .finish 0]

theorem follows_cancelledOn_owner
    : ∃ s, Run step TimersAllowed init (cancelledOn 0) s ∧ (s.queues 0).queue = [] ∧
        s.timers 0 = .max ∧ ∀ cpuId, s.Follows cpuId := by
  obtain ⟨s, hrun, hs⟩ := exists_run_of_exec (checked step TimersAllowed) init (cancelledOn 0)
    (fun s => (s.queues 0).queue = [] && s.timers 0 = .max)
    (by decide +kernel)
  simp only [Bool.and_eq_true, decide_eq_true_eq] at hs
  exact ⟨s, hrun.of_checked, hs.1, hs.2, (follows_of_run hrun.of_checked).1⟩

theorem follows_cancelledOn_other_false
    : ¬ ∀ (as : List (TimedEventAction Nat)) (s : TimedEvents Nat),
          Run step (fun _ _ => True) init as s → ∀ cpuId, s.Follows cpuId := by
  intro hall
  obtain ⟨s, hrun, hs⟩ := exists_run_of_exec step init (cancelledOn 1)
    (fun s => (s.queues 0).queue = [] && s.timers 0 ≠ .max)
    (by decide +kernel)
  simp only [Bool.and_eq_true, decide_eq_true_eq] at hs
  have hfollows := hall (cancelledOn 1) s hrun 0
  rw [Follows, if_pos hs.1] at hfollows
  exact hs.2 hfollows

end TimedEvents

end Jrinx
