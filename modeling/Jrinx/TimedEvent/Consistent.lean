import Jrinx.TimedEvent.ExactlyOnce

/-!
This module contains the proof that the registry and the heap of every queue of timed events agree with
each other and with the events, whatever calls are made.
-/

namespace Jrinx

open Std

variable {F : Type}

namespace TimedEvents

/--
The registry and the heap of a CPU hold the same events, each of them once and with its own time, and
`peek` finds the one of them with the smallest time and identifier.
-/
structure Consistent (s : TimedEvents F) (cpuId : Nat) : Prop where
  nodup : (s.queues cpuId).ids.Nodup
  mem_ids_iff : ∀ id, id ∈ (s.queues cpuId).ids ↔ id ∈ (s.queues cpuId).registry
  own : ∀ e ∈ (s.queues cpuId).queue, ∃ event, s.events[e.2]? = some event ∧
    (s.queues cpuId).registry[e.2]? = some event.tracker ∧ event.tracker = ⟨e.2, cpuId, e.1⟩ ∧
    event.inner.status = .pending
  peek : ((s.queues cpuId).queue = [] ∧ (s.queues cpuId).peek = .next none) ∨
    ∃ e ∈ (s.queues cpuId).queue, (s.queues cpuId).peek = .next (some ⟨e.2, cpuId, e.1⟩) ∧
      ∀ e' ∈ (s.queues cpuId).queue, TimedEventQueue.key e ≤ TimedEventQueue.key e'

def Owned (s : TimedEvents F) : Prop :=
  ∀ (cpuId : Nat) (id : TimedEventId) (tracker : TimedEventTracker),
    (s.queues cpuId).registry[id]? = some tracker →
    tracker.cpuId = cpuId ∧ ∃ event, s.events[id]? = some event ∧ event.tracker = tracker

structure Intact (s : TimedEvents F) : Prop where
  bounded : s.Bounded
  queued : s.Queued
  nodup : ∀ cpuId, (s.queues cpuId).ids.Nodup
  owned : s.Owned
  phases : ∀ (id : TimedEventId) (event : TimedEvent F), s.events[id]? = some event → ∃ h, s.Phase id h

variable {s s' : TimedEvents F} {a : TimedEventAction F} {id : TimedEventId}

theorem intact_init : (init : TimedEvents F).Intact := by
  refine ⟨bounded_init, queued_init, ?_, ?_, ?_⟩
  . simp [init, TimedEventQueue.new, TimedEventQueue.ids]
  . simp [Owned, init, TimedEventQueue.new]
  . simp [init]

theorem Step.tracker {event : TimedEvent F} (hstep : s.Step a s') (hb : s.Bounded)
    (hevent : s.events[id]? = some event)
    : ∃ event', s'.events[id]? = some event' ∧ event'.tracker = event.tracker := by
  cases hstep with
  | create cpuId time handler =>
    have hne : (⟨s.nextId⟩ : TimedEventId) ≠ id := by
      rintro rfl
      simp [hb.new_not_mem] at hevent
    refine ⟨event, ?_, rfl⟩
    simp only [TimedEvents.create, setQueue, ExtTreeMap.getElem?_insert]
    simp [hne, hevent]
  | @invoked i call event' _ _ hcall hpc hevent' =>
    by_cases hid : call.id = id
    . subst hid
      rw [hevent, Option.some.injEq] at hevent'
      subst hevent'
      refine ⟨{ event with inner := ⟨call.target, none⟩ }, ?_, rfl⟩
      simp only [setPc, ExtTreeMap.getElem?_insert_self]
    . refine ⟨event, ?_, rfl⟩
      simp only [setPc, ExtTreeMap.getElem?_insert]
      simp [hid, hevent]
  | _ => exact ⟨event, hevent, rfl⟩

theorem Step.registry {cpuId : Nat} {tracker : TimedEventTracker} (hstep : s.Step a s')
    (hget : (s'.queues cpuId).registry[id]? = some tracker)
    : (s.queues cpuId).registry[id]? = some tracker ∨
        ∃ time handler, a = .create cpuId time handler ∧ s' = s.create cpuId time handler ∧
          id = ⟨s.nextId⟩ ∧ tracker = ⟨id, cpuId, time⟩ := by
  cases hstep with
  | create i time handler =>
    simp only [TimedEvents.create, setQueue] at hget
    split at hget
    . next hi =>
      subst hi
      simp only [TimedEventQueue.add, ExtTreeMap.getElem?_insert] at hget
      split at hget
      . next heq =>
        have hid : (⟨s.nextId⟩ : TimedEventId) = id := by simpa using heq
        simp only [Option.some.injEq] at hget
        subst hid hget
        exact .inr ⟨time, handler, rfl, rfl, rfl, rfl⟩
      . exact .inl hget
    . exact .inl hget
  | removed hcall hpc hevent hok =>
    left
    simp only [setPc, setQueue] at hget
    split at hget
    . next hi =>
      rw [hi]
      exact TimedEventQueue.remove_getElem? hok hget
    . exact hget
  | _ => exact .inl hget

theorem Owned.step (h : s.Owned) (hb : s.Bounded) (hstep : s.Step a s') : s'.Owned := by
  intro i id tracker hget
  rcases hstep.registry hget with hget | ⟨time, handler, _, rfl, rfl, rfl⟩
  . obtain ⟨hcpu, event, hevent, htracker⟩ := h i id tracker hget
    obtain ⟨event', hevent', heq⟩ := hstep.tracker hb hevent
    exact ⟨hcpu, event', hevent', heq.trans htracker⟩
  . exact ⟨rfl, _, create_events_self i time, rfl⟩

theorem Intact.nodup_step (h : s.Intact) (hstep : s.Step a s') (cpuId : Nat)
    : (s'.queues cpuId).ids.Nodup := by
  cases hstep with
  | create i time handler =>
    simp only [TimedEvents.create, setQueue]
    split
    . next hi =>
      subst hi
      exact (h.queued.wf _).nodup_add (h.nodup _) (h.queued.new_not_mem h.bounded _)
    . exact h.nodup cpuId
  | removed hcall hpc hevent hok =>
    simp only [setPc, setQueue]
    split
    . exact TimedEventQueue.nodup_remove (h.nodup _) hok
    . exact h.nodup cpuId
  | _ => exact h.nodup cpuId

theorem Step.phases (hstep : s.Step a s') (hb : s.Bounded)
    (hphases : ∀ id event, s.events[id]? = some event → ∃ h, s.Phase id h)
    (id : TimedEventId) (event : TimedEvent F) (hevent : s'.events[id]? = some event)
    : ∃ h, s'.Phase id h := by
  by_cases hmem : ∃ event', s.events[id]? = some event'
  . obtain ⟨event', hevent'⟩ := hmem
    obtain ⟨h, hphase⟩ := hphases id event' hevent'
    exact ⟨h, hphase.step hb (hb.events id event' hevent').1 hstep⟩
  . cases hstep with
    | create cpuId time handler =>
      simp only [TimedEvents.create, setQueue, ExtTreeMap.getElem?_insert] at hevent
      split at hevent
      . next heq =>
        have hid : (⟨s.nextId⟩ : TimedEventId) = id := by simpa using heq
        subst hid
        exact ⟨handler, phase_create hb cpuId time⟩
      . exact absurd ⟨event, hevent⟩ hmem
    | @invoked _ call event' _ _ hcall hpc hevent' =>
      simp only [setPc, ExtTreeMap.getElem?_insert] at hevent
      split at hevent
      . next heq =>
        have hid : call.id = id := by simpa using heq
        subst hid
        exact absurd ⟨event', hevent'⟩ hmem
      . exact absurd ⟨event, hevent⟩ hmem
    | _ => exact absurd ⟨event, hevent⟩ hmem

theorem Intact.step (h : s.Intact) (hstep : s.Step a s') : s'.Intact where
  bounded := h.bounded.step hstep
  queued := h.queued.step h.bounded hstep
  nodup := h.nodup_step hstep
  owned := h.owned.step h.bounded hstep
  phases := hstep.phases h.bounded h.phases

theorem Intact.armed {cpuId : Nat} {tracker : TimedEventTracker} (h : s.Intact)
    (hget : (s.queues cpuId).registry[id]? = some tracker)
    : ∃ event handler, s.events[id]? = some event ∧ event.tracker = tracker ∧
        event.inner = { status := .pending, handler := some handler } ∧ s.Phase id handler := by
  obtain ⟨hcpu, event, hevent, htracker⟩ := h.owned cpuId id tracker hget
  obtain ⟨handler, hphase⟩ := h.phases id event hevent
  refine ⟨event, handler, hevent, htracker, ?_, hphase⟩
  have hmem : id ∈ (s.queues event.tracker.cpuId).registry := by
    rw [htracker, hcpu]
    exact SerialId.mem_iff_exists.mpr ⟨_, hget⟩
  cases hphase with
  | armed hevent' hinner =>
    rw [hevent, Option.some.injEq] at hevent'
    subst hevent'
    exact hinner
  | won hevent' hgone =>
    rw [hevent, Option.some.injEq] at hevent'
    subst hevent'
    exact absurd hmem hgone

theorem Intact.not_mem_of_won {i : Nat} {call : Call F} (h : s.Intact) (hcall : s.calls[i]? = some call)
    (hnot : ¬ Lost call) (cpuId : Nat)
    : call.id ∉ (s.queues cpuId).registry := by
  intro hmem
  obtain ⟨tracker, hget⟩ := SerialId.mem_iff_exists.mp hmem
  obtain ⟨event, handler, hevent, htracker, _, hphase⟩ := h.armed hget
  obtain ⟨event', hevent', hgone, _⟩ := hphase.winner hcall rfl hnot
  rw [hevent, Option.some.injEq] at hevent'
  subst hevent'
  apply hgone
  rw [htracker, (h.owned cpuId _ tracker hget).1]
  exact hmem

theorem Intact.tracker_eq {cpuId : Nat} {tracker : TimedEventTracker} (h : s.Intact)
    (hget : (s.queues cpuId).registry[id]? = some tracker)
    : tracker = ⟨id, cpuId, tracker.time⟩ := by
  have hid := (h.queued.created cpuId id tracker hget).1
  have hcpu := (h.owned cpuId id tracker hget).1
  subst hid hcpu
  rfl

theorem Intact.consistent (h : s.Intact) (cpuId : Nat) : s.Consistent cpuId := by
  have hwf := h.queued.wf cpuId
  refine ⟨h.nodup cpuId, fun _ => hwf.mem_ids_iff, ?_, ?_⟩
  . intro e he
    obtain ⟨tracker, hget, htime⟩ := hwf.registered e he
    obtain ⟨event, handler, hevent, htracker, hinner, _⟩ := h.armed hget
    refine ⟨event, hevent, htracker ▸ hget, ?_, by rw [hinner]⟩
    rw [htracker, h.tracker_eq hget, htime]
  . rcases hwf.peek_least with ⟨hnil, _, hpeek⟩ | ⟨e, tracker, _, hpeek, hmem, hget, htime, hle⟩
    . exact .inl ⟨hnil, hpeek⟩
    . rw [h.tracker_eq hget, htime] at hpeek
      exact .inr ⟨e, hmem, hpeek, hle⟩

theorem Intact.step_ne_panic (h : s.Intact) (a : TimedEventAction F) : s.step a ≠ .panic := by
  intro hpanic
  cases a with
  | create => simp [TimedEvents.step] at hpanic
  | timeout | cancel =>
    simp only [TimedEvents.step, TimedEvents.start] at hpanic
    split at hpanic <;> simp at hpanic
  | invoke i =>
    simp only [TimedEvents.step] at hpanic
    split at hpanic
    . next call hcall =>
      split at hpanic
      . next event hpc hevent =>
        obtain ⟨handler, hphase⟩ := h.phases call.id event hevent
        obtain ⟨_, s', _, hstep, _⟩ := hphase.invoke h.bounded hcall rfl hpc
        simp [TimedEvents.step, hcall, hpc, hevent, hpanic] at hstep
      . simp at hpanic
    . simp at hpanic
  | remove | func | finish =>
    simp only [TimedEvents.step] at hpanic
    split at hpanic
    . split at hpanic <;> simp at hpanic
    . simp at hpanic

structure Later (s₀ s : TimedEvents F) : Prop where
  intact : s.Intact
  nextId : s₀.nextId ≤ s.nextId
  tracker : ∀ (id : TimedEventId) (event : TimedEvent F), s₀.events[id]? = some event →
    ∃ event', s.events[id]? = some event' ∧ event'.tracker = event.tracker
  phase : ∀ (id : TimedEventId) (h : TimedEventHandler F), id.val < s₀.nextId → s₀.Phase id h → s.Phase id h

theorem later_refl (hintact : s.Intact) : Later s s where
  intact := hintact
  nextId := Nat.le_refl _
  tracker _ event hevent := ⟨event, hevent, rfl⟩
  phase _ _ _ hphase := hphase

theorem Later.step {s₀ : TimedEvents F} (h : Later s₀ s) (hstep : s.Step a s')
    : Later s₀ s' where
  intact := h.intact.step hstep
  nextId := Nat.le_trans h.nextId hstep.nextId_le
  tracker id event hevent := by
    obtain ⟨event', hevent', htracker'⟩ := h.tracker id event hevent
    obtain ⟨event'', hevent'', htracker''⟩ := hstep.tracker h.intact.bounded hevent'
    exact ⟨event'', hevent'', htracker''.trans htracker'⟩
  phase id handler hlt hphase :=
    (h.phase id handler hlt hphase).step h.intact.bounded (Nat.lt_of_lt_of_le hlt h.nextId) hstep

theorem Later.timers {s₀ : TimedEvents F} (h : Later s₀ s) (timers : Nat → Duration)
    : Later s₀ { s with timers } where
  intact := by
    refine ⟨⟨h.intact.bounded.events, h.intact.bounded.calls, h.intact.bounded.ran⟩,
      ⟨h.intact.queued.wf, h.intact.queued.created⟩, h.intact.nodup, h.intact.owned, ?_⟩
    intro id event hevent
    obtain ⟨handler, hphase⟩ := h.intact.phases id event hevent
    exact ⟨handler, hphase.frame rfl (fun _ => Iff.rfl) (fun _ _ _ => Iff.rfl) rfl⟩
  nextId := h.nextId
  tracker := h.tracker
  phase id handler hlt hphase :=
    (h.phase id handler hlt hphase).frame rfl (fun _ => Iff.rfl) (fun _ _ _ => Iff.rfl) rfl

end TimedEvents

end Jrinx
