import Jrinx.TimedEvent.Consistent
import Jrinx.Trap.TimerInt

/-!
This module contains the invariant of the loop in the handler of the timer interrupt: which events it
has handled so far and in which order, whatever the closures create and cancel in the meantime.
-/

namespace Jrinx

open Std

variable {F : Type}

def CallPc.isEarly (pc : CallPc F) : Bool :=
  -- The closure of the event is not called yet.
  match pc with
  | .remove | .invoke | .func _ => true
  | .running | .returned _ => false

def TimedEventTracker.key (t : TimedEventTracker) : Nat ×ₗ Nat := TimedEventQueue.key (t.time, t.id)

namespace TimedEvents

def Registered (s : TimedEvents F) (cpuId : Nat) (t : TimedEventTracker) : Prop :=
  (s.queues cpuId).registry[t.id]? = some t

def Cancelled (s : TimedEvents F) (id : TimedEventId) : Prop :=
  ∃ (i : Nat) (call : Call F), s.calls[i]? = some call ∧ call.id = id ∧ call.target = .cancelled ∧ ¬ Lost call

end TimedEvents

namespace Harts

def now (s : Harts F) (cpuId : Nat) : Duration := Cpu.getTime s.freq (s.ticks cpuId)

def current (s : Harts F) (cpuId : Nat) : Option Nat :=
  -- The call that the innermost handler on the hart waits for.
  match s.handlers cpuId with
  | .timeout i :: _ => some i
  | _ => none

def isOwn (cpuId : Nat) (s : Harts F) (a : HartAction F) : Bool :=
  match a with
  | .events a => a.call?.any (fun i => s.current cpuId = some i)
  | .peek i | .resume i => i = cpuId
  | _ => false

/--
The handler on the hart is in its loop with the clock held fixed. Apart from its steps, events are
created, on this hart only for later than now, and events are cancelled.
-/
def Drains (cpuId : Nat) (s : Harts F) (a : HartAction F) : Prop :=
  match a with
  | .events (.create i time _) => i = cpuId → s.now cpuId < time
  | .events (.timeout ..) => False
  | .events (.remove i) => s.current cpuId = some i ∨ ∀ call ∈ s.events.calls[i]?, call.target = .cancelled
  | .events _ => True
  | .peek i | .resume i => i = cpuId
  | .tick .. | .interrupt _ | .test _ => False

instance (cpuId : Nat) (s : Harts F) (a : HartAction F) : Decidable (Drains cpuId s a) := by
  induction a using HartAction.casesOn with
  | events a =>
    induction a using TimedEventAction.casesOn with
    | create i time handler => exact inferInstanceAs (Decidable (i = cpuId → s.now cpuId < time))
    | timeout => exact isFalse (fun h => h)
    | remove i =>
      exact inferInstanceAs (Decidable (_ ∨ ∀ call ∈ s.events.calls[i]?, call.target = .cancelled))
    | _ => exact isTrue trivial
  | peek i => exact inferInstanceAs (Decidable (i = cpuId))
  | resume i => exact inferInstanceAs (Decidable (i = cpuId))
  | _ => exact isFalse (fun h => h)

def fired (cpuId : Nat) (s : Harts F) (a : HartAction F) : List TimedEventTracker :=
  -- The event of which the handler calls the closure.
  match a with
  | .events (.func i) =>
    if s.current cpuId = some i then
      ((s.events.calls[i]?.bind fun call => s.events.events[call.id]?).map TimedEvent.tracker).toList
    else
      []
  | _ => []

def Due (s : Harts F) (cpuId : Nat) (t : TimedEventTracker) : Prop :=
  s.events.Registered cpuId t ∧ t.time ≤ s.now cpuId

def Seen (s₀ : Harts F) (cpuId : Nat) (id : TimedEventId) : Prop :=
  id ∈ (s₀.events.queues cpuId).registry ∨ s₀.events.nextId ≤ id.val

inductive Loop (cpuId : Nat) (outer : List HandlePc) (s₀ s : Harts F) (l : List TimedEventTracker)
    : Prop where
  | peek (hpc : s.handlers cpuId = .peek :: outer)
  | timeout {i : Nat} {call : Call F} {event : TimedEvent F} (hpc : s.handlers cpuId = .timeout i :: outer)
      (hcall : s.events.calls[i]? = some call) (htarget : call.target = .timeout)
      (hevent : s.events.events[call.id]? = some event) (hid : event.tracker.id = call.id)
      (hdue : s₀.Due cpuId event.tracker)
      (hnext : call.pc.isEarly = true → (∀ t ∈ l, t.key < event.tracker.key) ∧
        ∀ t, s.Due cpuId t → event.tracker.key ≤ t.key)
  | test (hpc : s.handlers cpuId = .test :: outer) (hnone : ∀ t, ¬ s.Due cpuId t)

/--
The loop that has started in `s₀` has called the closures of the events `l` so far.
-/
structure Draining (cpuId : Nat) (outer : List HandlePc) (s₀ s : Harts F) (l : List TimedEventTracker)
    : Prop where
  intact : s.events.Intact
  now : s.now cpuId = s₀.now cpuId
  nextId : s₀.events.nextId ≤ s.events.nextId
  loop : s₀.Loop cpuId outer s l
  old : ∀ t, s.events.Registered cpuId t →
    s₀.events.Registered cpuId t ∨ (s₀.events.nextId ≤ t.id.val ∧ s₀.now cpuId < t.time)
  due : ∀ t ∈ l, s₀.Due cpuId t
  sorted : l.Pairwise (fun t t' => t.key < t'.key)
  past : ∀ t ∈ l, ∀ t', s.Due cpuId t' → t.key < t'.key
  ran : ∀ t ∈ l, ∃ (i : Nat) (call : Call F), s.events.calls[i]? = some call ∧ call.id = t.id ∧
    call.target = .timeout ∧ (call.pc = .running ∨ call.pc = .returned (.ok ()))
  -- Nobody but the handler has timed out an event since the start of the loop.
  won : ∀ (i : Nat) (call : Call F), s.events.calls[i]? = some call → s₀.Seen cpuId call.id →
    call.target = .timeout → ¬ TimedEvents.Lost call →
    (∃ t ∈ l, t.id = call.id) ∨ (s.current cpuId = some i ∧ call.pc.isEarly = true)

variable {cpuId : Nat} {outer : List HandlePc} {s₀ s s' : Harts F} {l : List TimedEventTracker}

@[simp]
theorem setHandlers_now (handlers : List HandlePc) (i : Nat)
    : (s.setHandlers cpuId handlers).now i = s.now i := rfl

@[simp]
theorem events_now (events : TimedEvents F) (i : Nat) : now { s with events } i = s.now i := rfl

theorem id_of_key {t t' : TimedEventTracker} (h : t.key = t'.key) : t.id = t'.id := by
  simp only [TimedEventTracker.key, TimedEventQueue.key, toLex_inj, Prod.mk.injEq] at h
  exact SerialId.eq_of_val h.2

theorem due_of_step {a : TimedEventAction F} {events : TimedEvents F} {t : TimedEventTracker}
    (hallowed : Drains cpuId s (.events a)) (hstep : s.events.Step a events)
    (hdue : Due { s with events } cpuId t)
    : s.Due cpuId t := by
  rcases hstep.registry hdue.1 with hget | ⟨time, handler, rfl, _, _, ht⟩
  . exact ⟨hget, hdue.2⟩
  . have hlt : s.now cpuId < time := hallowed rfl
    have hle : t.time ≤ s.now cpuId := hdue.2
    rw [ht] at hle
    exact absurd hle (Nat.not_le.mpr hlt)

theorem isEarly_of_pcStep {a : TimedEventAction F} {i : Nat} {pc pc' : CallPc F}
    (hpc : TimedEvents.PcStep a i pc pc') (hearly : pc'.isEarly = true)
    : pc.isEarly = true := by
  cases hpc with
  | removed | invoked => rfl
  | gone | taken | func | finish => simp [CallPc.isEarly] at hearly

theorem ran_of_pcStep {a : TimedEventAction F} {i : Nat} {pc pc' : CallPc F}
    (hpc : TimedEvents.PcStep a i pc pc') (hran : pc = .running ∨ pc = .returned (.ok ()))
    : pc' = .running ∨ pc' = .returned (.ok ()) := by
  cases hpc with
  | finish => exact .inr rfl
  | removed | gone | invoked | taken | func => simp at hran

theorem Draining.ran_step {a : TimedEventAction F} {events : TimedEvents F}
    (h : Draining cpuId outer s₀ s l) (hstep : s.events.step a = .next events)
    {t : TimedEventTracker} (ht : t ∈ l)
    : ∃ (i : Nat) (call : Call F), events.calls[i]? = some call ∧ call.id = t.id ∧
        call.target = .timeout ∧ (call.pc = .running ∨ call.pc = .returned (.ok ())) := by
  obtain ⟨i, call, hcall, hid, htarget, hran⟩ := h.ran t ht
  rcases TimedEvents.step_call hstep hcall with ⟨_, hcall'⟩ | ⟨pc, hcall', hpc⟩
  . exact ⟨i, call, hcall', hid, htarget, hran⟩
  . exact ⟨i, _, hcall', hid, htarget, ran_of_pcStep hpc hran⟩

theorem Draining.loop_step {a : TimedEventAction F} {events : TimedEvents F}
    (h : Draining cpuId outer s₀ s l) (hallowed : Drains cpuId s (.events a))
    (hstep : s.events.step a = .next events)
    : Loop cpuId outer s₀ { s with events } l := by
  have hstep' := TimedEvents.step_cases hstep
  cases h.loop with
  | peek hpc => exact .peek hpc
  | test hpc hnone => exact .test hpc (fun t hdue => hnone t (due_of_step hallowed hstep' hdue))
  | @timeout i call event hpc hcall htarget hevent hid hdue hnext =>
    obtain ⟨event', hevent', htracker⟩ := hstep'.tracker h.intact.bounded hevent
    have hnext' {pc : CallPc F} (hearly : pc.isEarly = true → call.pc.isEarly = true)
        : pc.isEarly = true → (∀ t ∈ l, t.key < event'.tracker.key) ∧
            ∀ t, Due { s with events } cpuId t → event'.tracker.key ≤ t.key := by
      intro hpc
      obtain ⟨hlt, hle⟩ := hnext (hearly hpc)
      rw [htracker]
      exact ⟨hlt, fun t hdue => hle t (due_of_step hallowed hstep' hdue)⟩
    rcases TimedEvents.step_call hstep hcall with ⟨_, hcall'⟩ | ⟨pc, hcall', hpcstep⟩
    . exact .timeout hpc hcall' htarget hevent' (by rw [htracker, hid]) (htracker ▸ hdue) (hnext' fun h => h)
    . exact .timeout hpc hcall' htarget hevent' (by rw [htracker, hid]) (htracker ▸ hdue)
        (hnext' (isEarly_of_pcStep hpcstep))

theorem Draining.frame {a : TimedEventAction F} {events : TimedEvents F} {l' : List TimedEventTracker}
    (h : Draining cpuId outer s₀ s l) (hallowed : Drains cpuId s (.events a))
    (hstep : s.events.step a = .next events) (hloop : Loop cpuId outer s₀ { s with events } l')
    (hdue : ∀ t ∈ l', s₀.Due cpuId t) (hsorted : l'.Pairwise (fun t t' => t.key < t'.key))
    (hpast : ∀ t ∈ l', ∀ t', s.Due cpuId t' → t.key < t'.key)
    (hran : ∀ t ∈ l', ∃ (i : Nat) (call : Call F), events.calls[i]? = some call ∧ call.id = t.id ∧
      call.target = .timeout ∧ (call.pc = .running ∨ call.pc = .returned (.ok ())))
    (hwon : ∀ (i : Nat) (call : Call F), events.calls[i]? = some call → s₀.Seen cpuId call.id →
      call.target = .timeout → ¬ TimedEvents.Lost call →
      (∃ t ∈ l', t.id = call.id) ∨ (s.current cpuId = some i ∧ call.pc.isEarly = true))
    : Draining cpuId outer s₀ { s with events } l' := by
  have hstep' := TimedEvents.step_cases hstep
  refine ⟨h.intact.step hstep', h.now, Nat.le_trans h.nextId hstep'.nextId_le, hloop, ?_, hdue, hsorted, ?_,
    hran, hwon⟩
  . intro t hreg
    rcases hstep'.registry hreg with hget | ⟨time, handler, rfl, _, hid, ht⟩
    . exact h.old t hget
    . refine .inr ⟨?_, ?_⟩
      . rw [hid]
        exact h.nextId
      . have hlt : s.now cpuId < time := hallowed rfl
        rw [ht, ← h.now]
        exact hlt
  . intro t ht t' hdue'
    exact hpast t ht t' (due_of_step hallowed hstep' hdue')

theorem Draining.quiet {a : TimedEventAction F} {events : TimedEvents F}
    (h : Draining cpuId outer s₀ s l) (hallowed : Drains cpuId s (.events a))
    (hstep : s.events.step a = .next events) (hquiet : ∀ i, a = .func i → s.current cpuId ≠ some i)
    : Draining cpuId outer s₀ { s with events } l := by
  refine h.frame hallowed hstep (h.loop_step hallowed hstep) h.due h.sorted h.past
    (fun t ht => h.ran_step hstep ht) ?_
  intro i call' hcall' hseen htarget hnot
  cases hold : s.events.calls[i]? with
  | none => exact absurd (.inl ((TimedEvents.step_cases hstep).new_call hcall' hold)) hnot
  | some call =>
    rcases TimedEvents.step_call hstep hold with ⟨_, heq⟩ | ⟨pc, heq, hpc⟩
    . rw [hcall', Option.some.injEq] at heq
      subst heq
      exact h.won i call' hold hseen htarget hnot
    . rw [hcall', Option.some.injEq] at heq
      subst heq
      have hbefore := h.won i call hold hseen htarget
      generalize hpc₀ : call.pc = pc₀ at hpc
      cases hpc with
      | removed =>
        -- A call of `timeout` that removes the event is the one of the handler.
        rcases hallowed with hcurrent | hcancel
        . exact .inr ⟨hcurrent, rfl⟩
        . simp [hcancel call hold] at htarget
      | gone | taken => exact absurd (.inr rfl) hnot
      | invoked =>
        rcases hbefore (TimedEvents.not_lost_of_pc (by simp [hpc₀]) (by simp [hpc₀])) with hl | ⟨hcurrent, _⟩
        . exact .inl hl
        . exact .inr ⟨hcurrent, rfl⟩
      | func =>
        rcases hbefore (TimedEvents.not_lost_of_pc (by simp [hpc₀]) (by simp [hpc₀])) with hl | ⟨hcurrent, _⟩
        . exact .inl hl
        . exact absurd hcurrent (hquiet i rfl)
      | finish =>
        rcases hbefore (TimedEvents.not_lost_of_pc (by simp [hpc₀]) (by simp [hpc₀])) with hl | ⟨_, hearly⟩
        . exact .inl hl
        . simp [hpc₀, CallPc.isEarly] at hearly

theorem current_eq_some {i : Nat} (h : s.current cpuId = some i)
    : ∃ outer, s.handlers cpuId = .timeout i :: outer := by
  unfold current at h
  split at h
  . next j outer hpc =>
    simp only [Option.some.injEq] at h
    subst h
    exact ⟨outer, hpc⟩
  . simp at h

theorem current_of_handlers {i : Nat} (hpc : s.handlers cpuId = .timeout i :: outer)
    : s.current cpuId = some i := by
  simp only [current, hpc]

theorem Draining.fire {i : Nat} {events : TimedEvents F} (h : Draining cpuId outer s₀ s l)
    (hcurrent : s.current cpuId = some i) (hstep : s.events.step (.func i) = .next events)
    : Draining cpuId outer s₀ { s with events } (l ++ fired cpuId s (.events (.func i))) := by
  obtain ⟨outer', hpc⟩ := current_eq_some hcurrent
  obtain ⟨call, f, hcall, hfunc, hevents⟩ := TimedEvents.step_func hstep
  have hcalls : ∀ j, events.calls[j]? =
      if i = j then some { call with pc := .running } else s.events.calls[j]? := by
    intro j
    rw [hevents]
    split
    . next hij =>
      subst hij
      exact TimedEvents.setPc_calls_self hcall
    . next hij => exact TimedEvents.setPc_calls_of_ne hij
  have hself : events.calls[i]? = some { call with pc := .running } := by rw [hcalls i, if_pos rfl]
  have hnot : ¬ TimedEvents.Lost call := TimedEvents.not_lost_of_pc (by simp [hfunc]) (by simp [hfunc])
  rcases h.loop with hpeek | @⟨k, winner, event, htimeout, hwinner, htarget, hevent, hid, hdue, hnext⟩ | htest
  . simp [hpc] at hpeek
  . rw [hpc, List.cons.injEq, HandlePc.timeout.injEq] at htimeout
    obtain ⟨rfl, rfl⟩ := htimeout
    rw [hcall, Option.some.injEq] at hwinner
    subst hwinner
    obtain ⟨hlt, hle⟩ := hnext (by rw [hfunc]; rfl)
    have hfired : fired cpuId s (.events (.func i)) = [event.tracker] := by
      simp [fired, hcurrent, hcall, hevent]
    rw [hfired]
    have hlast {p : TimedEventTracker → Prop} (hl : ∀ t ∈ l, p t) (ht : p event.tracker)
        : ∀ t ∈ l ++ [event.tracker], p t := by
      intro t hmem
      rcases List.mem_append.mp hmem with hmem | hmem
      . exact hl t hmem
      . rw [List.mem_singleton.mp hmem]
        exact ht
    refine h.frame (a := .func i) trivial hstep ?_ (hlast h.due hdue) ?_ (hlast h.past ?_) (hlast ?_ ?_) ?_
    . refine .timeout hpc hself htarget (by rw [hevents]; exact hevent) hid hdue ?_
      simp [CallPc.isEarly]
    . rw [List.pairwise_append]
      refine ⟨h.sorted, List.pairwise_singleton _ _, ?_⟩
      intro t ht t' ht'
      rw [List.mem_singleton.mp ht']
      exact hlt t ht
    . intro t hdue'
      -- The event has left the queue, so it is not `t`.
      refine (hle t hdue').lt_of_ne ?_
      intro heq
      have hreg := hdue'.1
      have hmem : t.id ∈ (s.events.queues cpuId).registry :=
        SerialId.mem_iff_exists.mpr ⟨_, hreg⟩
      rw [← id_of_key heq, hid] at hmem
      exact h.intact.not_mem_of_won hcall hnot cpuId hmem
    . exact fun t ht => h.ran_step hstep ht
    . exact ⟨i, _, hself, hid.symm, htarget, .inl rfl⟩
    . intro j call' hcall' hseen htarget' hnot'
      rw [hcalls j] at hcall'
      split at hcall'
      . next hij =>
        simp only [Option.some.injEq] at hcall'
        subst hcall'
        exact .inl ⟨event.tracker, by simp, hid⟩
      . next hij =>
        rcases h.won j call' hcall' hseen htarget' hnot' with ⟨t, ht, hid'⟩ | ⟨hcurrent', _⟩
        . exact .inl ⟨t, by simp [ht], hid'⟩
        . rw [hcurrent, Option.some.injEq] at hcurrent'
          exact absurd hcurrent' hij
  . simp [hpc] at htest

theorem fired_eq_nil {a : TimedEventAction F} (h : ∀ i, a = .func i → s.current cpuId ≠ some i)
    : fired cpuId s (.events a) = [] := by
  cases a with
  | func i => exact if_neg (h i rfl)
  | _ => rfl

theorem Draining.events {a : TimedEventAction F} {events : TimedEvents F}
    (h : Draining cpuId outer s₀ s l) (hallowed : Drains cpuId s (.events a))
    (hstep : s.events.step a = .next events)
    : Draining cpuId outer s₀ { s with events } (l ++ fired cpuId s (.events a)) := by
  by_cases hfire : ∃ i, a = .func i ∧ s.current cpuId = some i
  . obtain ⟨i, rfl, hcurrent⟩ := hfire
    exact h.fire hcurrent hstep
  . have hquiet : ∀ i, a = .func i → s.current cpuId ≠ some i :=
      fun i ha hcurrent => hfire ⟨i, ha, hcurrent⟩
    rw [fired_eq_nil hquiet, List.append_nil]
    exact h.quiet hallowed hstep hquiet

inductive Peeked (cpuId : Nat) (outer : List HandlePc) (s : Harts F) : Outcome (Harts F) → Prop where
  | none (hnone : ∀ t, ¬ s.Due cpuId t) : Peeked cpuId outer s (.next (s.setHandlers cpuId (.test :: outer)))
  | some (event : TimedEvent F) {events : TimedEvents F}
      (hevent : s.events.events[event.tracker.id]? = some event) (hdue : s.Due cpuId event.tracker)
      (hleast : ∀ t, s.Due cpuId t → event.tracker.key ≤ t.key)
      (hstart : s.events.start cpuId event.tracker.id .timeout = .next events)
      : Peeked cpuId outer s
          (.next ({ s with events }.setHandlers cpuId (.timeout s.events.calls.length :: outer)))

theorem mem_queue_of_registered {t : TimedEventTracker} (hintact : s.events.Intact)
    (hreg : s.events.Registered cpuId t)
    : (t.time, t.id) ∈ (s.events.queues cpuId).queue :=
  (hintact.queued.wf cpuId).queued t.id t hreg

theorem peeked (hintact : s.events.Intact) : Peeked cpuId outer s (s.peek cpuId outer) := by
  have hcons := hintact.consistent cpuId
  unfold Harts.peek TimedEventQueue.peekOutdated
  rcases hcons.peek with ⟨hnil, hpeek⟩ | ⟨e, he, hpeek, hleast⟩
  . rw [hpeek]
    refine .none ?_
    intro t hdue
    have hmem := mem_queue_of_registered hintact hdue.1
    simp [hnil] at hmem
  . obtain ⟨event, hevent, hget, htracker, _⟩ := hcons.own e he
    have hmem : e.2 ∈ s.events.events :=
      SerialId.mem_iff_exists.mpr ⟨_, hevent⟩
    rw [hpeek, Outcome.map_next]
    by_cases hdue : e.1 ≤ s.now cpuId
    . have hfilter : (some (⟨e.2, cpuId, e.1⟩ : TimedEventTracker)).filter
          (fun t => decide (t.time ≤ Cpu.getTime s.freq (s.ticks cpuId))) = some ⟨e.2, cpuId, e.1⟩ := by
        rw [Option.filter_some, if_pos (by simpa [now] using hdue)]
      have hstart : ∃ events, s.events.start cpuId e.2 .timeout = .next events := by
        simp only [TimedEvents.start, hmem, if_true, Outcome.next.injEq, exists_eq']
      obtain ⟨events, hstart⟩ := hstart
      simp only [hfilter, hstart, Outcome.map_next]
      have hid : event.tracker.id = e.2 := by rw [htracker]
      refine .some event (by rw [hid]; exact hevent) ⟨?_, ?_⟩ ?_ (by rw [hid]; exact hstart)
      . rw [TimedEvents.Registered, hid]
        exact hget
      . rw [htracker]
        exact hdue
      . intro t ht
        rw [htracker]
        exact hleast _ (mem_queue_of_registered hintact ht.1)
    . have hfilter : (some (⟨e.2, cpuId, e.1⟩ : TimedEventTracker)).filter
          (fun t => decide (t.time ≤ Cpu.getTime s.freq (s.ticks cpuId))) = none := by
        rw [Option.filter_some, if_neg (by simpa [now] using hdue)]
      simp only [hfilter]
      refine .none ?_
      intro t ht
      have hle := hleast _ (mem_queue_of_registered hintact ht.1)
      have hnow := ht.2
      simp only [TimedEventQueue.key, Prod.Lex.toLex_le_toLex] at hle
      rw [Duration.le_def] at hdue hnow
      omega

theorem Draining.setHandlers (h : Draining cpuId outer s₀ s l) {handlers : List HandlePc}
    (hloop : Loop cpuId outer s₀ (s.setHandlers cpuId handlers) l)
    (hcurrent : ∀ (i : Nat) (call : Call F), s.events.calls[i]? = some call → s.current cpuId = some i →
      call.pc.isEarly = false)
    : Draining cpuId outer s₀ (s.setHandlers cpuId handlers) l := by
  refine ⟨h.intact, h.now, h.nextId, hloop, h.old, h.due, h.sorted, h.past, h.ran, ?_⟩
  intro i call hcall hseen htarget hnot
  rcases h.won i call hcall hseen htarget hnot with hl | ⟨hcur, hearly⟩
  . exact .inl hl
  . rw [hcurrent i call hcall hcur] at hearly
    simp at hearly

theorem Due.of_old {t : TimedEventTracker} (h : Draining cpuId outer s₀ s l) (hdue : s.Due cpuId t)
    : s₀.Due cpuId t := by
  have hle : t.time ≤ s₀.now cpuId := h.now ▸ hdue.2
  rcases h.old t hdue.1 with hreg | ⟨_, hlt⟩
  . exact ⟨hreg, hle⟩
  . exact absurd hle (Nat.not_le.mpr hlt)

theorem Draining.peek (h : Draining cpuId outer s₀ s l) (hpc : s.handlers cpuId = .peek :: outer)
    (hstep : s.peek cpuId outer = .next s')
    : Draining cpuId outer s₀ s' l := by
  have hidle : s.current cpuId = none := by simp [current, hpc]
  have hpeeked : Peeked cpuId outer s (s.peek cpuId outer) := peeked h.intact
  rw [hstep] at hpeeked
  cases hpeeked with
  | none hnone =>
    refine h.setHandlers (.test (setHandlers_self _) hnone) ?_
    simp [hidle]
  | @some event events hevent hdue hleast hstart =>
    have hstep' : s.events.Step (.timeout cpuId event.tracker.id) events :=
      TimedEvents.step_start (by simp) hstart
    obtain ⟨_, rfl⟩ := TimedEvents.start_eq_next hstart
    refine ⟨h.intact.step hstep', h.now, h.nextId, ?_, h.old, h.due, h.sorted, h.past, ?_, ?_⟩
    . exact .timeout (setHandlers_self _) List.getElem?_concat_length rfl hevent rfl (hdue.of_old h)
        (fun _ => ⟨fun t ht => h.past t ht _ hdue, hleast⟩)
    . intro t ht
      obtain ⟨i, call, hcall, hrest⟩ := h.ran t ht
      exact ⟨i, call, TimedEvents.start_call hcall _, hrest⟩
    . intro i call hcall hseen htarget hnot
      rcases TimedEvents.start_calls hcall with hcall | rfl
      . rcases h.won i call hcall hseen htarget hnot with hl | ⟨hcurrent, _⟩
        . exact .inl hl
        . simp [hidle] at hcurrent
      . exact absurd (.inl rfl) hnot

theorem Loop.outer_eq {pc : HandlePc} {outer' : List HandlePc} (h : Loop cpuId outer s₀ s l)
    (hpc : s.handlers cpuId = pc :: outer')
    : outer' = outer := by
  cases h with
  | peek hpc' | timeout hpc' | test hpc' =>
    rw [hpc, List.cons.injEq] at hpc'
    exact hpc'.2

theorem Draining.step {a : HartAction F} (h : Draining cpuId outer s₀ s l) (hallowed : Drains cpuId s a)
    (hstep : s.step a = .next s')
    : Draining cpuId outer s₀ s' (l ++ fired cpuId s a) := by
  cases a with
  | events a =>
    obtain ⟨events, hevents, rfl⟩ := Outcome.map_eq_next hstep
    exact h.events hallowed hevents
  | peek i =>
    have hi : i = cpuId := hallowed
    subst hi
    obtain ⟨outer', hpc, hpeek⟩ := step_peek hstep
    obtain rfl := h.loop.outer_eq hpc
    simpa [fired] using h.peek hpc hpeek
  | resume i =>
    have hi : i = cpuId := hallowed
    subst hi
    obtain ⟨k, outer', call, result, hpc, hcall, hreturned, rfl⟩ := step_resume hstep
    obtain rfl := h.loop.outer_eq hpc
    have hresume : Draining i outer' s₀ (s.setHandlers i (.peek :: outer')) l := by
      refine h.setHandlers (.peek (setHandlers_self _)) ?_
      intro j call' hcall' hcurrent
      rw [current_of_handlers hpc, Option.some.injEq] at hcurrent
      subst hcurrent
      rw [hcall, Option.some.injEq] at hcall'
      subst hcall'
      rw [hreturned]
      rfl
    simpa [fired] using hresume
  | tick | interrupt | test => exact absurd hallowed (fun h => h)

theorem Seen.not_won {id : TimedEventId} (h : s₀.Seen cpuId id) (hintact : s₀.events.Intact) {i : Nat}
    {call : Call F} (hcall : s₀.events.calls[i]? = some call) (hid : call.id = id)
    : TimedEvents.Lost call := by
  by_contra hnot
  subst hid
  rcases h with hmem | hle
  . exact hintact.not_mem_of_won hcall hnot cpuId hmem
  . exact absurd (hintact.bounded.calls i call hcall).1 (Nat.not_lt.mpr hle)

theorem draining_start (hintact : s₀.events.Intact) (hpc : s₀.handlers cpuId = .peek :: outer)
    : Draining cpuId outer s₀ s₀ [] := by
  refine ⟨hintact, rfl, Nat.le_refl _, .peek hpc, fun t hreg => .inl hreg, ?_, .nil, ?_, ?_, ?_⟩
  . simp
  . simp
  . simp
  . intro i call hcall hseen _ hnot
    exact absurd (hseen.not_won hintact hcall rfl) hnot

theorem draining_of_run {as : List (HartAction F)} (hintact : s₀.events.Intact)
    (hpc : s₀.handlers cpuId = .peek :: outer) (hrun : Run step (Drains cpuId) s₀ as s)
    : Draining cpuId outer s₀ s (observe step (fired cpuId) s₀ as) := by
  rw [← List.nil_append (observe step (fired cpuId) s₀ as)]
  apply hrun.observe_invariant (Draining cpuId outer s₀) (draining_start hintact hpc)
  intro s s' a l h hallowed hstep
  exact h.step hallowed hstep

end Harts

end Jrinx
