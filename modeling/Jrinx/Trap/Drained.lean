import Jrinx.Trap.Drain

/-!
This module contains the proof that the handler of the timer interrupt handles all the events that are
due: its loop ends, and it has called their closures in the order of their times.
-/

namespace Jrinx

open Std

variable {F : Type}

namespace TimedEvents

variable {s s' : TimedEvents F} {a : TimedEventAction F}

theorem dueCount_create {i cpuId : Nat} {time now : Duration} {handler : TimedEventHandler F}
    (hlater : i = cpuId → now < time)
    : ((s.create i time handler).queues cpuId).dueCount now = (s.queues cpuId).dueCount now := by
  simp only [TimedEvents.create, setQueue]
  split
  . next hi =>
    subst hi
    have hlt : ¬ time ≤ now := Nat.not_le.mpr (hlater rfl)
    simp [TimedEventQueue.dueCount, TimedEventQueue.add, hlt]
  . rfl

theorem Step.dueCount_le {cpuId : Nat} {now : Duration} (hstep : s.Step a s')
    (hlater : ∀ time handler, a = .create cpuId time handler → now < time)
    : (s'.queues cpuId).dueCount now ≤ (s.queues cpuId).dueCount now := by
  cases hstep with
  | create i time handler =>
    rw [dueCount_create]
    intro hi
    subst hi
    exact hlater time handler rfl
  | removed hcall hpc hevent hok =>
    simp only [setPc, setQueue]
    split
    . next hi =>
      rw [hi, TimedEventQueue.dueCount_remove now hok]
      exact Nat.le_add_right _ _
    . exact Nat.le_refl _
  | _ => exact Nat.le_refl _

theorem Step.dueCount_lt {cpuId : Nat} {id : TimedEventId} {tracker : TimedEventTracker} {now : Duration}
    (hstep : s.Step a s') (hs : s.Intact) (hget : (s.queues cpuId).registry[id]? = some tracker)
    (hdue : tracker.time ≤ now) (hgone : id ∉ (s'.queues cpuId).registry)
    : (s'.queues cpuId).dueCount now < (s.queues cpuId).dueCount now := by
  have hmem : id ∈ (s.queues cpuId).registry :=
    SerialId.mem_iff_exists.mpr ⟨_, hget⟩
  cases hstep with
  | create i time handler =>
    simp only [TimedEvents.create, setQueue] at hgone
    split at hgone
    . next hi =>
      subst hi
      simp [TimedEventQueue.add, hmem] at hgone
    . exact absurd hmem hgone
  | @removed _ call event q hcall hpc hevent hok =>
    simp only [setPc, setQueue] at hgone ⊢
    split at hgone
    . next hi =>
      rw [if_pos hi]
      rw [hi] at hget hmem ⊢
      have hid : id = event.tracker.id := by
        by_contra hne
        exact hgone (((TimedEventQueue.remove_mem_iff hok).2 id).mpr ⟨hne, hmem⟩)
      subst hid
      exact (hs.queued.wf _).dueCount_remove_lt hok hget hdue
    . exact absurd hmem hgone
  | _ => exact absurd hmem hgone

theorem step_remove_cases {i cpuId : Nat} {call : Call F} {event : TimedEvent F} (hs : s.Intact)
    (hstep : s.step (.remove i) = .next s') (hcall : s.calls[i]? = some call)
    (hevent : s.events[call.id]? = some event) (hcpu : event.tracker.cpuId = cpuId)
    : (call.id ∈ (s.queues cpuId).registry ∧ call.id ∉ (s'.queues cpuId).registry ∧
          s'.calls[i]? = some { call with pc := .invoke }) ∨
        (call.id ∉ (s.queues cpuId).registry ∧
          s'.calls[i]? = some { call with pc := .returned (.error .invalidTimedEventStatus) }) := by
  have hid := (hs.bounded.events call.id event hevent).2
  subst hcpu
  obtain ⟨call', event', hcall', _, hevent', rfl⟩ := step_remove hstep
  rw [hcall, Option.some.injEq] at hcall'
  subst hcall'
  rw [hevent, Option.some.injEq] at hevent'
  subst hevent'
  rcases s.remove_cases i call event with ⟨q, hok, heq⟩ | ⟨hgone, heq⟩
  . obtain ⟨hmem, hiff⟩ := TimedEventQueue.remove_mem_iff hok
    rw [hid] at hmem hiff
    rw [heq]
    refine .inl ⟨hmem, ?_, setPc_calls_self hcall⟩
    simp [setPc, setQueue, hiff]
  . rw [hid] at hgone
    rw [heq]
    exact .inr ⟨hgone, setPc_calls_self hcall⟩

def stage (q : TimedEventQueue) (call : Call F) : Nat :=
  -- A call is done with an event that somebody else has removed more quickly.
  match call.pc with
  | .remove => if call.id ∈ q.registry then 0 else 3
  | .invoke => 5
  | .func _ => 4
  | .running => 3
  | .returned _ => 2

end TimedEvents

namespace Harts

/--
A bound for the number of steps that the handler has still to make in its loop: six for every event that
is due, and those for the event it deals with.
-/
def remaining (s : Harts F) (cpuId : Nat) : Nat :=
  6 * (s.events.queues cpuId).dueCount (s.now cpuId) +
    match s.handlers cpuId with
    | .peek :: _ => 1
    | .timeout i :: _ => (s.events.calls[i]?.map (TimedEvents.stage (s.events.queues cpuId))).getD 0
    | _ => 0

variable {cpuId : Nat} {outer : List HandlePc} {s₀ s s' : Harts F} {l : List TimedEventTracker}

theorem remaining_peek (hpc : s.handlers cpuId = .peek :: outer)
    : s.remaining cpuId = 6 * (s.events.queues cpuId).dueCount (s.now cpuId) + 1 := by
  simp only [remaining, hpc]

theorem remaining_timeout {i : Nat} {call : Call F} (hpc : s.handlers cpuId = .timeout i :: outer)
    (hcall : s.events.calls[i]? = some call)
    : s.remaining cpuId =
        6 * (s.events.queues cpuId).dueCount (s.now cpuId) +
          TimedEvents.stage (s.events.queues cpuId) call := by
  simp only [remaining, hpc, hcall, Option.map_some, Option.getD_some]

theorem remaining_test (hpc : s.handlers cpuId = .test :: outer)
    : s.remaining cpuId = 6 * (s.events.queues cpuId).dueCount (s.now cpuId) := by
  simp only [remaining, hpc, Nat.add_zero]

theorem isOwn_events {a : TimedEventAction F}
    : isOwn cpuId s (.events a) = true ↔ ∃ i, a.call? = some i ∧ s.current cpuId = some i := by
  simp [isOwn, Option.any_eq_true]

theorem Draining.current_call {i : Nat} (h : Draining cpuId outer s₀ s l) (h₀ : s₀.events.Intact)
    (hcurrent : s.current cpuId = some i)
    : s.handlers cpuId = .timeout i :: outer ∧ ∃ call event, s.events.calls[i]? = some call ∧
        s.events.events[call.id]? = some event ∧ event.tracker.id = call.id ∧
        event.tracker.cpuId = cpuId ∧ event.tracker.time ≤ s.now cpuId := by
  obtain ⟨outer', hpc⟩ := current_eq_some hcurrent
  obtain rfl := h.loop.outer_eq hpc
  rcases h.loop with hpeek | @⟨k, call, event, htimeout, hcall, _, hevent, hid, hdue, _⟩ | ⟨htest, _⟩
  . simp [hpc] at hpeek
  . rw [hpc, List.cons.injEq, HandlePc.timeout.injEq] at htimeout
    obtain ⟨rfl, _⟩ := htimeout
    refine ⟨hpc, call, event, hcall, hevent, hid, (h₀.owned cpuId _ _ hdue.1).1, ?_⟩
    rw [h.now]
    exact hdue.2
  . simp [hpc] at htest

theorem Draining.due_current {call : Call F} {event : TimedEvent F} {tracker : TimedEventTracker}
    (h : Draining cpuId outer s₀ s l) (hevent : s.events.events[call.id]? = some event)
    (htime : event.tracker.time ≤ s.now cpuId)
    (hget : (s.events.queues cpuId).registry[call.id]? = some tracker)
    : tracker.time ≤ s.now cpuId := by
  obtain ⟨event', _, hevent', htracker, _⟩ := h.intact.armed hget
  rw [hevent, Option.some.injEq] at hevent'
  subst hevent'
  rw [← htracker]
  exact htime

theorem dueCount_le_of_step {a : TimedEventAction F} {events : TimedEvents F}
    (hallowed : Drains cpuId s (.events a)) (hstep : s.events.step a = .next events)
    : (events.queues cpuId).dueCount (s.now cpuId) ≤ (s.events.queues cpuId).dueCount (s.now cpuId) := by
  apply (TimedEvents.step_cases hstep).dueCount_le
  rintro time handler rfl
  exact hallowed rfl

theorem Draining.dueCount_lt {a : TimedEventAction F} {events : TimedEvents F} {call : Call F}
    {event : TimedEvent F} (h : Draining cpuId outer s₀ s l) (hstep : s.events.step a = .next events)
    (hevent : s.events.events[call.id]? = some event) (htime : event.tracker.time ≤ s.now cpuId)
    (hmem : call.id ∈ (s.events.queues cpuId).registry) (hgone : call.id ∉ (events.queues cpuId).registry)
    : (events.queues cpuId).dueCount (s.now cpuId) < (s.events.queues cpuId).dueCount (s.now cpuId) := by
  obtain ⟨tracker, hget⟩ := SerialId.mem_iff_exists.mp hmem
  exact (TimedEvents.step_cases hstep).dueCount_lt h.intact hget (h.due_current hevent htime hget) hgone

theorem Draining.remaining_own {a : TimedEventAction F} {i : Nat} {events : TimedEvents F}
    (h : Draining cpuId outer s₀ s l) (h₀ : s₀.events.Intact) (hallowed : Drains cpuId s (.events a))
    (hstep : s.events.step a = .next events) (hcurrent : s.current cpuId = some i)
    (hact : a.call? = some i)
    : remaining { s with events } cpuId < remaining s cpuId := by
  obtain ⟨hpc, call, event, hcall, hevent, _, hcpu, htime⟩ := h.current_call h₀ hcurrent
  have hle := dueCount_le_of_step hallowed hstep
  rcases TimedEvents.step_call hstep hcall with ⟨hne, _⟩ | ⟨pc, hcall', hpcstep⟩
  . exact absurd hact hne
  . rw [remaining_timeout hpc hcall,
      remaining_timeout (s := { s with events }) hpc hcall']
    simp only [events_now]
    unfold TimedEvents.stage
    generalize hpc₀ : call.pc = pc₀ at hpcstep
    cases hpcstep with
    | removed =>
      rcases TimedEvents.step_remove_cases h.intact hstep hcall hevent hcpu with
        ⟨hmem, hgone, _⟩ | ⟨_, hcall''⟩
      . have hlt := h.dueCount_lt hstep hevent htime hmem hgone
        simp only [hmem, if_true]
        omega
      . simp [hcall'] at hcall''
    | gone =>
      rcases TimedEvents.step_remove_cases h.intact hstep hcall hevent hcpu with
        ⟨_, _, hcall''⟩ | ⟨hgone, _⟩
      . simp [hcall'] at hcall''
      . simp only [hgone, if_false]
        omega
    | invoked | taken | func | finish =>
      simp only
      omega

theorem Draining.remaining_other {a : TimedEventAction F} {events : TimedEvents F}
    (h : Draining cpuId outer s₀ s l) (h₀ : s₀.events.Intact) (hallowed : Drains cpuId s (.events a))
    (hstep : s.events.step a = .next events) (hother : ∀ i, a.call? = some i → s.current cpuId ≠ some i)
    : remaining { s with events } cpuId ≤ remaining s cpuId := by
  have hle := dueCount_le_of_step hallowed hstep
  cases hcurrent : s.current cpuId with
  | none =>
    rcases h.loop with hpc | hpc | ⟨hpc, _⟩
    . rw [remaining_peek hpc, remaining_peek (s := { s with events }) hpc]
      simp only [events_now]
      omega
    . simp [current_of_handlers hpc] at hcurrent
    . rw [remaining_test hpc, remaining_test (s := { s with events }) hpc]
      simp only [events_now]
      omega
  | some i =>
    obtain ⟨hpc, call, event, hcall, hevent, _, hcpu, htime⟩ := h.current_call h₀ hcurrent
    rcases TimedEvents.step_call hstep hcall with ⟨_, hcall'⟩ | ⟨pc, _, hpcstep⟩
    . rw [remaining_timeout hpc hcall, remaining_timeout (s := { s with events }) hpc hcall']
      simp only [events_now]
      unfold TimedEvents.stage
      -- If the event of the call is removed in this step, there is one event less.
      by_cases hremoved :
          call.id ∈ (s.events.queues cpuId).registry ∧ call.id ∉ (events.queues cpuId).registry
      . have hlt := h.dueCount_lt hstep hevent htime hremoved.1 hremoved.2
        split
        . simp only [hremoved.1, hremoved.2, if_true, if_false]
          omega
        all_goals omega
      . split
        . split
          . omega
          . next hgone =>
            rw [if_neg (fun hmem => hremoved ⟨hmem, hgone⟩)]
            omega
        all_goals omega
    . exact absurd hcurrent (hother i hpcstep.call?)

theorem Draining.remaining_step {a : HartAction F} (h : Draining cpuId outer s₀ s l)
    (h₀ : s₀.events.Intact) (hallowed : Drains cpuId s a) (hstep : s.step a = .next s')
    : s'.remaining cpuId + (if isOwn cpuId s a then 1 else 0) ≤ s.remaining cpuId := by
  cases a with
  | events a =>
    obtain ⟨events, hevents, rfl⟩ := Outcome.map_eq_next hstep
    by_cases hown : isOwn cpuId s (.events a) = true
    . obtain ⟨i, hact, hcurrent⟩ := isOwn_events.mp hown
      rw [if_pos hown]
      exact h.remaining_own h₀ hallowed hevents hcurrent hact
    . rw [if_neg hown]
      apply h.remaining_other h₀ hallowed hevents
      exact fun i hact hcurrent => hown (isOwn_events.mpr ⟨i, hact, hcurrent⟩)
  | peek i =>
    have hi : i = cpuId := hallowed
    subst hi
    obtain ⟨outer', hpc, hpeek⟩ := step_peek hstep
    have hpeeked : Peeked i outer' s (s.peek i outer') := peeked h.intact
    rw [hpeek] at hpeeked
    rw [remaining_peek hpc]
    cases hpeeked with
    | none hnone =>
      rw [remaining_test (setHandlers_self _)]
      simp [isOwn]
    | @some event events hevent hdue hleast hstart =>
      obtain ⟨_, rfl⟩ := TimedEvents.start_eq_next hstart
      have hmem : event.tracker.id ∈ (s.events.queues i).registry :=
        SerialId.mem_iff_exists.mpr ⟨_, hdue.1⟩
      rw [remaining_timeout (setHandlers_self _) List.getElem?_concat_length]
      simp [isOwn, TimedEvents.stage, hmem]
  | resume i =>
    have hi : i = cpuId := hallowed
    subst hi
    obtain ⟨k, outer', call, result, hpc, hcall, hreturned, rfl⟩ := step_resume hstep
    rw [remaining_timeout hpc hcall, remaining_peek (setHandlers_self _)]
    simp [isOwn, TimedEvents.stage, hreturned]
  | tick | interrupt | test => exact absurd hallowed (fun h => h)

def ownSteps (cpuId : Nat) (s : Harts F) (a : HartAction F) : List Unit :=
  if isOwn cpuId s a then [()] else []

theorem ownSteps_le_of_run {as : List (HartAction F)} (hintact : s₀.events.Intact)
    (hpc : s₀.handlers cpuId = .peek :: outer) (hrun : Run step (Drains cpuId) s₀ as s)
    : (observe step (ownSteps cpuId) s₀ as).length + s.remaining cpuId ≤ s₀.remaining cpuId := by
  rw [← List.nil_append (observe step (ownSteps cpuId) s₀ as)]
  refine (hrun.observe_invariant (fun s steps => (∃ l, Draining cpuId outer s₀ s l) ∧
    steps.length + s.remaining cpuId ≤ s₀.remaining cpuId) ?_ ?_).2
  . exact ⟨⟨[], draining_start hintact hpc⟩, by simp⟩
  . rintro s s' a steps ⟨⟨l, h⟩, hle⟩ hallowed hstep
    refine ⟨⟨_, h.step hallowed hstep⟩, ?_⟩
    have hdown := h.remaining_step hintact hallowed hstep
    have hown : (ownSteps cpuId s a).length = if isOwn cpuId s a then 1 else 0 := by
      unfold ownSteps
      split <;> rfl
    rw [List.length_append, hown]
    omega

theorem own_step {a : TimedEventAction F} {i : Nat} {events : TimedEvents F}
    (hcurrent : s.current cpuId = some i) (hact : a.call? = some i) (hallowed : Drains cpuId s (.events a))
    (hstep : s.events.step a = .next events)
    : ∃ a s', isOwn cpuId s a = true ∧ Drains cpuId s a ∧ s.step a = .next s' :=
  ⟨.events a, { s with events }, isOwn_events.mpr ⟨i, hact, hcurrent⟩, hallowed, by simp [Harts.step, hstep]⟩

theorem Draining.progress (h : Draining cpuId outer s₀ s l)
    : s.handlers cpuId = .test :: outer ∨
        ∃ a s', isOwn cpuId s a = true ∧ Drains cpuId s a ∧ s.step a = .next s' := by
  rcases h.loop with hpc | @⟨i, call, event, hpc, hcall, _, hevent, _⟩ | ⟨hpc, _⟩
  . right
    have hpeeked : Peeked cpuId outer s (s.peek cpuId outer) := peeked h.intact
    obtain ⟨s', hpeek⟩ : ∃ s', s.peek cpuId outer = .next s' := by
      generalize s.peek cpuId outer = o at hpeeked
      cases hpeeked with
      | _ => exact ⟨_, rfl⟩
    exact ⟨.peek cpuId, s', by simp [isOwn], rfl, by simp [Harts.step, hpc, hpeek]⟩
  . right
    have hcurrent := current_of_handlers hpc
    cases hcallpc : call.pc with
    | remove =>
      have hstep : s.events.step (.remove i) = .next (s.events.remove i call event) := by
        simp only [TimedEvents.step, hcall, hcallpc, hevent]
      exact own_step (a := .remove i) hcurrent rfl (.inl hcurrent) hstep
    | invoke =>
      obtain ⟨handler, hphase⟩ := h.intact.phases call.id event hevent
      obtain ⟨_, events, _, hstep, _⟩ := hphase.invoke h.intact.bounded hcall rfl hcallpc
      exact own_step (a := .invoke i) hcurrent rfl trivial hstep
    | func f =>
      have hstep : s.events.step (.func i) =
          .next ({ s.events with ran := s.events.ran ++ [(call.id, f)] }.setPc i .running) := by
        simp only [TimedEvents.step, hcall, hcallpc]
      exact own_step (a := .func i) hcurrent rfl trivial hstep
    | running =>
      have hstep : s.events.step (.finish i) = .next (s.events.setPc i (.returned (.ok ()))) := by
        simp only [TimedEvents.step, hcall, hcallpc]
      exact own_step (a := .finish i) hcurrent rfl trivial hstep
    | returned result =>
      refine ⟨.resume cpuId, s.setHandlers cpuId (.peek :: outer), by simp [isOwn], rfl, ?_⟩
      simp [Harts.step, hpc, hcall, hcallpc]
  . exact .inl hpc

theorem step_events {a : HartAction F} (hstep : s.step a = .next s')
    : (∃ b, s.events.Step b s'.events) ∨ ∃ timers, s'.events = { s.events with timers } := by
  cases a with
  | events a =>
    obtain ⟨events, hevents, rfl⟩ := Outcome.map_eq_next hstep
    exact .inl ⟨a, TimedEvents.step_cases hevents⟩
  | tick i ticks =>
    obtain rfl := step_tick hstep
    exact .inr ⟨s.events.timers, rfl⟩
  | interrupt i =>
    obtain rfl := step_interrupt hstep
    exact .inr ⟨s.events.timers, rfl⟩
  | peek i =>
    obtain ⟨outer, _, hpeek⟩ := step_peek hstep
    unfold Harts.peek at hpeek
    split at hpeek
    . next tracker _ =>
      obtain ⟨events, hstart, rfl⟩ := Outcome.map_eq_next hpeek
      exact .inl ⟨.timeout i tracker.id, TimedEvents.step_start (by simp) hstart⟩
    . simp only [Outcome.next.injEq] at hpeek
      subst hpeek
      exact .inr ⟨s.events.timers, rfl⟩
    . simp at hpeek
    . simp at hpeek
  | resume i =>
    obtain ⟨_, _, _, _, _, _, _, rfl⟩ := step_resume hstep
    exact .inr ⟨s.events.timers, rfl⟩
  | test i =>
    obtain ⟨outer, _, rfl⟩ := step_test hstep
    unfold Harts.test
    split
    . exact .inr ⟨_, rfl⟩
    . exact .inr ⟨s.events.timers, rfl⟩

theorem later_of_run {allowed : Harts F → HartAction F → Prop} {as : List (HartAction F)}
    (hintact : s₀.events.Intact) (hrun : Run step allowed s₀ as s)
    : s₀.events.Later s.events := by
  apply hrun.invariant (fun s => s₀.events.Later s.events) (TimedEvents.later_refl hintact)
  intro s s' a h _ hstep
  rcases step_events hstep with ⟨b, hb⟩ | ⟨timers, heq⟩
  . exact h.step hb
  . rw [heq]
    exact h.timers timers

theorem step_ne_panic (hintact : s.events.Intact) (a : HartAction F) : s.step a ≠ .panic := by
  intro hpanic
  cases a with
  | events a =>
    have hevents : s.events.step a = .panic := by
      simp only [Harts.step] at hpanic
      cases hstep : s.events.step a with
      | panic => rfl
      | next | disabled => simp [hstep] at hpanic
    exact hintact.step_ne_panic a hevents
  | peek i =>
    simp only [Harts.step] at hpanic
    split at hpanic
    . next outer _ =>
      have hpeeked : Peeked i outer s (s.peek i outer) := peeked hintact
      rw [hpanic] at hpeeked
      cases hpeeked
    . simp at hpanic
  | tick | interrupt | test =>
    simp only [Harts.step] at hpanic
    split at hpanic <;> simp at hpanic
  | resume i =>
    simp only [Harts.step] at hpanic
    split at hpanic
    . split at hpanic <;> simp at hpanic
    . simp at hpanic

theorem tracker_of_registered {t : TimedEventTracker} {event : TimedEvent F}
    (hlater : s₀.events.Later s.events) (hintact : s₀.events.Intact)
    (hreg : s₀.events.Registered cpuId t) (hevent : s.events.events[t.id]? = some event)
    : event.tracker = t := by
  obtain ⟨event₀, _, hevent₀, htracker, _⟩ := hintact.armed hreg
  obtain ⟨event', hevent', htracker'⟩ := hlater.tracker t.id event₀ hevent₀
  rw [hevent, Option.some.injEq] at hevent'
  subst hevent'
  rw [htracker', htracker]

theorem phase_of_registered {t : TimedEventTracker} {event : TimedEvent F} {handler : TimedEventHandler F}
    (hlater : s₀.events.Later s.events) (hintact : s₀.events.Intact)
    (hreg : s₀.events.Registered cpuId t) (hevent : s₀.events.events[t.id]? = some event)
    (hhandler : event.inner.handler = some handler)
    : s.events.Phase t.id handler := by
  obtain ⟨event', handler', hevent', _, hinner, hphase⟩ := hintact.armed hreg
  rw [hevent, Option.some.injEq] at hevent'
  subst hevent'
  rw [hinner, Option.some.injEq] at hhandler
  subst hhandler
  exact hlater.phase t.id handler' (hintact.bounded.events t.id event hevent).1 hphase

theorem Draining.ranOf_fired {t : TimedEventTracker} {handler : TimedEventHandler F}
    (h : Draining cpuId outer s₀ s l) (ht : t ∈ l) (hphase : s.events.Phase t.id handler)
    : ¬ s.events.Cancelled t.id ∧ s.events.ranOf t.id = [handler.timeout] := by
  obtain ⟨i, call, hcall, hid, htarget, hran⟩ := h.ran t ht
  have hnot : ¬ TimedEvents.Lost call := by
    rcases hran with hpc | hpc
    . exact TimedEvents.not_lost_of_pc (by simp [hpc]) (by simp [hpc])
    . exact TimedEvents.not_lost_of_pc (by simp [hpc]) (by simp [hpc])
  obtain ⟨event, _, _, hprogress, hothers⟩ := hphase.winner hcall hid hnot
  constructor
  . rintro ⟨j, call', hcall', hid', htarget', hnot'⟩
    have hij : j = i := by
      by_contra hne
      exact hnot' (hothers j call' hne hcall' hid')
    subst hij
    rw [hcall, Option.some.injEq] at hcall'
    subst hcall'
    simp [htarget] at htarget'
  . rw [htarget] at hprogress
    generalize call.pc = pc at hprogress hran
    generalize event.inner = inner at hprogress
    generalize s.events.ranOf t.id = ran at hprogress ⊢
    cases hprogress with
    | invoke | func => simp at hran
    | running hf | returned hf =>
      simp only [TimedEventHandler.select, Option.some.injEq] at hf
      rw [hf]

theorem Draining.gone_cases {id : TimedEventId} {event : TimedEvent F} {handler : TimedEventHandler F}
    (h : Draining cpuId outer s₀ s l) (hpc : s.handlers cpuId = .test :: outer)
    (hphase : s.events.Phase id handler) (hevent : s.events.events[id]? = some event)
    (hseen : s₀.Seen cpuId id)
    : id ∈ (s.events.queues event.tracker.cpuId).registry ∨ (∃ t ∈ l, t.id = id) ∨
        s.events.Cancelled id := by
  cases hphase with
  | armed hevent' _ hmem =>
    rw [hevent, Option.some.injEq] at hevent'
    subst hevent'
    exact .inl hmem
  | @won _ i call _ _ hcall hid hprogress _ =>
    right
    have hnot := hprogress.not_lost
    subst hid
    cases htarget : call.target with
    | pending => exact absurd htarget (h.intact.bounded.calls i call hcall).2
    | cancelled => exact .inr ⟨i, call, hcall, rfl, htarget, hnot⟩
    | timeout =>
      rcases h.won i call hcall hseen htarget hnot with hl | ⟨hcurrent, _⟩
      . exact .inl hl
      . simp [current, hpc] at hcurrent

/--
Whatever the closures create and cancel, the handler calls the closures of events that are due, each
once and in the order of times and identifiers. The loop goes on until it is over, which takes six steps
for each of these events. Then every event that was due is handled or cancelled, and the queue holds the
later ones that are not cancelled.
-/
structure Drained (cpuId : Nat) (outer : List HandlePc) (s₀ : Harts F) (as : List (HartAction F))
    (s : Harts F) : Prop where
  not_panic : ∀ a, s.step a ≠ .panic
  progress : s.handlers cpuId = .test :: outer ∨
    ∃ a s', isOwn cpuId s a = true ∧ Drains cpuId s a ∧ s.step a = .next s'
  bound : (observe step (ownSteps cpuId) s₀ as).length ≤
    6 * (s₀.events.queues cpuId).dueCount (s₀.now cpuId) + 1
  due : ∀ t ∈ observe step (fired cpuId) s₀ as, s₀.Due cpuId t
  sorted : (observe step (fired cpuId) s₀ as).Pairwise (fun t t' => t.key < t'.key)
  handled : s.handlers cpuId = .test :: outer →
    ∀ t event handler, s₀.Due cpuId t → s₀.events.events[t.id]? = some event →
    event.inner.handler = some handler →
    (t ∈ observe step (fired cpuId) s₀ as ∧ ¬ s.events.Cancelled t.id ∧
        s.events.ranOf t.id = [handler.timeout]) ∨
      (t ∉ observe step (fired cpuId) s₀ as ∧ s.events.Cancelled t.id)
  left : s.handlers cpuId = .test :: outer →
    ∀ id, id ∈ (s.events.queues cpuId).registry ↔
      ∃ event, s.events.events[id]? = some event ∧ event.tracker.cpuId = cpuId ∧
        s₀.now cpuId < event.tracker.time ∧ s₀.Seen cpuId id ∧ ¬ s.events.Cancelled id

theorem Draining.not_due (h : Draining cpuId outer s₀ s l) (hpc : s.handlers cpuId = .test :: outer)
    (t : TimedEventTracker)
    : ¬ s.Due cpuId t := by
  rcases h.loop with hpeek | htimeout | ⟨_, hnone⟩
  . simp [hpc] at hpeek
  . simp [hpc] at htimeout
  . exact hnone t

theorem Draining.handled {t : TimedEventTracker} {event : TimedEvent F} {handler : TimedEventHandler F}
    (h : Draining cpuId outer s₀ s l) (hlater : s₀.events.Later s.events) (hintact : s₀.events.Intact)
    (hpc : s.handlers cpuId = .test :: outer) (hdue : s₀.Due cpuId t)
    (hevent : s₀.events.events[t.id]? = some event) (hhandler : event.inner.handler = some handler)
    : (t ∈ l ∧ ¬ s.events.Cancelled t.id ∧ s.events.ranOf t.id = [handler.timeout]) ∨
        (t ∉ l ∧ s.events.Cancelled t.id) := by
  have hphase := phase_of_registered hlater hintact hdue.1 hevent hhandler
  by_cases ht : t ∈ l
  . exact .inl ⟨ht, h.ranOf_fired ht hphase⟩
  . refine .inr ⟨ht, ?_⟩
    obtain ⟨event', hevent', _⟩ := hlater.tracker t.id event hevent
    have htracker := tracker_of_registered hlater hintact hdue.1 hevent'
    have hcpu := (hintact.owned cpuId t.id t hdue.1).1
    have hmem : t.id ∈ (s₀.events.queues cpuId).registry :=
      SerialId.mem_iff_exists.mpr ⟨_, hdue.1⟩
    rcases h.gone_cases hpc hphase hevent' (.inl hmem) with hreg | ⟨t', ht', hid⟩ | hcancelled
    . rw [htracker, hcpu] at hreg
      obtain ⟨t', hget⟩ := SerialId.mem_iff_exists.mp hreg
      obtain ⟨event'', _, hevent'', htracker'', _⟩ := h.intact.armed hget
      rw [hevent', Option.some.injEq] at hevent''
      subst hevent''
      rw [htracker] at htracker''
      subst htracker''
      refine absurd ⟨hget, ?_⟩ (h.not_due hpc t)
      rw [h.now]
      exact hdue.2
    . have hreg' := (h.due t' ht').1
      rw [TimedEvents.Registered, hid, hdue.1, Option.some.injEq] at hreg'
      subst hreg'
      exact absurd ht' ht
    . exact hcancelled

theorem Draining.left {id : TimedEventId} (h : Draining cpuId outer s₀ s l)
    (hlater : s₀.events.Later s.events) (hintact : s₀.events.Intact)
    (hpc : s.handlers cpuId = .test :: outer)
    : id ∈ (s.events.queues cpuId).registry ↔
        ∃ event, s.events.events[id]? = some event ∧ event.tracker.cpuId = cpuId ∧
          s₀.now cpuId < event.tracker.time ∧ s₀.Seen cpuId id ∧ ¬ s.events.Cancelled id := by
  constructor
  . intro hmem
    obtain ⟨t, hget⟩ := SerialId.mem_iff_exists.mp hmem
    obtain ⟨event, _, hevent, htracker, _⟩ := h.intact.armed hget
    have hid := (h.intact.queued.created cpuId id t hget).1
    subst hid
    refine ⟨event, hevent, ?_, ?_, ?_, ?_⟩
    . rw [htracker]
      exact (h.intact.owned cpuId t.id t hget).1
    . rw [htracker, ← h.now]
      exact Nat.not_le.mp (fun hle => h.not_due hpc t ⟨hget, hle⟩)
    . rcases h.old t hget with hreg | ⟨hnew, _⟩
      . exact .inl (SerialId.mem_iff_exists.mpr ⟨_, hreg⟩)
      . exact .inr hnew
    . rintro ⟨i, call, hcall, hid, _, hnot⟩
      apply h.intact.not_mem_of_won hcall hnot cpuId
      rw [hid]
      exact hmem
  . rintro ⟨event, hevent, hcpu, hlt, hseen, hnot⟩
    obtain ⟨handler, hphase⟩ := h.intact.phases id event hevent
    rcases h.gone_cases hpc hphase hevent hseen with hmem | ⟨t, ht, rfl⟩ | hcancelled
    . rw [hcpu] at hmem
      exact hmem
    . obtain ⟨hreg, hle⟩ := h.due t ht
      rw [tracker_of_registered hlater hintact hreg hevent] at hlt
      exact absurd hle (Nat.not_le.mpr hlt)
    . exact absurd hcancelled hnot

theorem drained_of_draining {as : List (HartAction F)} (hintact : s₀.events.Intact)
    (hpc : s₀.handlers cpuId = .peek :: outer) (hrun : Run step (Drains cpuId) s₀ as s)
    : Drained cpuId outer s₀ as s := by
  have h := draining_of_run hintact hpc hrun
  have hlater := later_of_run hintact hrun
  have hbound := ownSteps_le_of_run hintact hpc hrun
  rw [remaining_peek hpc] at hbound
  exact {
    not_panic := step_ne_panic h.intact
    progress := h.progress
    bound := by omega
    due := h.due
    sorted := h.sorted
    handled := fun htest _ _ _ hdue hevent hhandler => h.handled hlater hintact htest hdue hevent hhandler
    left := fun htest _ => h.left hlater hintact htest
  }

/--
In every state that can be reached, the two halves of every queue agree. From any such state and at any
time, the loop of the handler drains the queue of its hart.
-/
theorem drained_of_run {freq : Nat} {ticks : Nat → Nat} {as : List (HartAction F)} {s : Harts F}
    (hrun : Run step (fun _ _ => True) (init freq ticks) as s)
    : (∀ cpuId, s.events.Consistent cpuId) ∧
        ∀ (s₀ s₁ : Harts F) (cpuId : Nat) (outer : List HandlePc) (bs : List (HartAction F)),
          s₀.events = s.events → s₀.handlers cpuId = .peek :: outer →
          Run step (Drains cpuId) s₀ bs s₁ → Drained cpuId outer s₀ bs s₁ := by
  have hintact : s.events.Intact := (later_of_run TimedEvents.intact_init hrun).intact
  refine ⟨hintact.consistent, ?_⟩
  intro s₀ s₁ cpuId outer bs hevents hpc hdrain
  exact drained_of_draining (hevents ▸ hintact) hpc hdrain

def fourEvents : List (HartAction Nat) :=
  -- Three of the events are due at the time 5, in the reverse order of their identifiers.
  [.events (.create 0 (.fromNanos 3) ⟨7, 8⟩), .events (.create 0 (.fromNanos 2) ⟨7, 8⟩),
    .events (.create 0 (.fromNanos 1) ⟨7, 8⟩), .events (.create 0 (.fromNanos 9) ⟨7, 8⟩), .interrupt 0]

def handleCall (i : Nat) (closure : List (HartAction Nat)) : List (HartAction Nat) :=
  [.peek 0, .events (.remove i), .events (.invoke i), .events (.func i)] ++ closure ++
    [.events (.finish i), .resume 0]

def cancellingClosure : List (HartAction Nat) :=
  -- The first closure cancels the next event and creates a later one.
  [.events (.cancel 0 ⟨1⟩), .events (.remove 1), .events (.invoke 1), .events (.func 1), .events (.finish 1),
    .events (.create 0 (.fromNanos 7) ⟨7, 8⟩)]

def drainFour : List (HartAction Nat) :=
  handleCall 0 cancellingClosure ++ handleCall 2 [] ++ [.peek 0]

theorem drained_cancellingClosure
    : ∃ s s₁, Run step (fun _ _ => True) (init (10 ^ 9) (fun _ => 5)) fourEvents s ∧
        (observe step (fired 0) s drainFour).map TimedEventTracker.id = [⟨2⟩, ⟨0⟩] ∧
        s₁.handlers 0 = [.test] ∧ (s₁.events.queues 0).ids = [⟨4⟩, ⟨3⟩] ∧
        (∀ cpuId, s.events.Consistent cpuId) ∧ Drained 0 [] s drainFour s₁ := by
  obtain ⟨s, hrun, hs⟩ := exists_run_of_exec step (init (10 ^ 9) (fun _ => 5)) fourEvents
    (fun s => s.handlers 0 = [.peek] &&
      (observe step (fired 0) s drainFour).map TimedEventTracker.id = [⟨2⟩, ⟨0⟩] &&
      (exec (checked step (Drains 0)) s drainFour).holds
        fun s₁ => s₁.handlers 0 = [.test] && (s₁.events.queues 0).ids = [⟨4⟩, ⟨3⟩])
    (by decide +kernel)
  simp only [Bool.and_eq_true, decide_eq_true_eq] at hs
  obtain ⟨s₁, hdrain, hs₁⟩ := exists_run_of_exec (checked step (Drains 0)) s drainFour
    (fun s₁ => s₁.handlers 0 = [.test] && (s₁.events.queues 0).ids = [⟨4⟩, ⟨3⟩]) hs.2
  simp only [Bool.and_eq_true, decide_eq_true_eq] at hs₁
  obtain ⟨hcons, hdrained⟩ := drained_of_run hrun
  exact ⟨s, s₁, hrun, hs.1.2, hs₁.1, hs₁.2, hcons, hdrained s s₁ 0 [] _ rfl hs.1.1 hdrain.of_checked⟩

end Harts

end Jrinx
