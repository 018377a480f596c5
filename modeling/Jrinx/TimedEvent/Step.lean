import Jrinx.TimedEvent.Tracker

/-!
This module contains what a step on timed events can do, and the invariants of the identifiers and the
queues that hold without any assumption.
-/

namespace Jrinx

open Std

variable {F : Type}

def TimedEventAction.call? (a : TimedEventAction F) : Option Nat :=
  match a with
  | .remove i | .invoke i | .func i | .finish i => some i
  | _ => none

namespace TimedEvents

structure Bounded (s : TimedEvents F) : Prop where
  events : ∀ (id : TimedEventId) (event : TimedEvent F), s.events[id]? = some event →
    id.val < s.nextId ∧ event.tracker.id = id
  calls : ∀ (i : Nat) (call : Call F), s.calls[i]? = some call →
    call.id.val < s.nextId ∧ call.target ≠ .pending
  ran : ∀ e ∈ s.ran, e.1.val < s.nextId

theorem setPc_calls {s : TimedEvents F} {i j : Nat} {pc : CallPc F} {call : Call F}
    (h : (s.setPc i pc).calls[j]? = some call)
    : ∃ call', s.calls[j]? = some call' ∧ call = if i = j then { call' with pc } else call' := by
  simp only [setPc, List.getElem?_modify, Option.map_eq_map, Option.map_eq_some_iff] at h
  obtain ⟨call', hcall', hcall⟩ := h
  exact ⟨call', hcall', hcall.symm⟩

theorem setPc_calls_of_ne {s : TimedEvents F} {i j : Nat} {pc : CallPc F} (hne : i ≠ j)
    : (s.setPc i pc).calls[j]? = s.calls[j]? := by
  simp [setPc, hne]

theorem setPc_calls_self {s : TimedEvents F} {i : Nat} {pc : CallPc F} {call : Call F}
    (hcall : s.calls[i]? = some call)
    : (s.setPc i pc).calls[i]? = some { call with pc } := by
  simp [setPc, hcall]

theorem bounded_init : (init : TimedEvents F).Bounded := by
  constructor <;> simp [init]

theorem Bounded.setPc {s : TimedEvents F} (h : s.Bounded) (i : Nat) (pc : CallPc F)
    : (s.setPc i pc).Bounded := by
  constructor
  . exact h.events
  . intro j call hcall
    obtain ⟨call', hcall', rfl⟩ := setPc_calls hcall
    have := h.calls j call' hcall'
    split <;> exact this
  . exact h.ran

inductive Step (s : TimedEvents F) : TimedEventAction F → TimedEvents F → Prop where
  | create (cpuId : Nat) (time : Duration) (handler : TimedEventHandler F)
      : Step s (.create cpuId time handler) (s.create cpuId time handler)
  | start {a : TimedEventAction F} {cpuId : Nat} {id : TimedEventId} {target : TimedEventStatus}
      (hmem : id ∈ s.events) (htarget : target ≠ .pending)
      : Step s a { s with calls := s.calls ++ [{ cpuId, id, target, pc := .remove }] }
  | removed {i : Nat} {call : Call F} {event : TimedEvent F} {q : TimedEventQueue}
      (hcall : s.calls[i]? = some call) (hpc : call.pc = .remove)
      (hevent : s.events[call.id]? = some event)
      (hok : (s.queues event.tracker.cpuId).remove event.tracker.id = .ok q)
      : Step s (.remove i) ((s.setQueue event.tracker.cpuId call.cpuId q).setPc i .invoke)
  | gone {i : Nat} {call : Call F} {event : TimedEvent F}
      (hcall : s.calls[i]? = some call) (hpc : call.pc = .remove)
      (hevent : s.events[call.id]? = some event)
      (hgone : event.tracker.id ∉ (s.queues event.tracker.cpuId).registry)
      : Step s (.remove i) (s.setPc i (.returned (.error .invalidTimedEventStatus)))
  | invoked {i : Nat} {call : Call F} {event : TimedEvent F} {handler : TimedEventHandler F} {f : F}
      (hcall : s.calls[i]? = some call) (hpc : call.pc = .invoke)
      (hevent : s.events[call.id]? = some event) (hhandler : event.inner.handler = some handler)
      (hf : handler.select call.target = some f)
      : Step s (.invoke i)
          ({
            s with
            events := s.events.insert call.id
              { event with inner := { status := call.target, handler := none } }
          }.setPc i (.func f))
  | taken {i : Nat} {call : Call F} {event : TimedEvent F} (hcall : s.calls[i]? = some call)
      (hpc : call.pc = .invoke) (hevent : s.events[call.id]? = some event)
      (hhandler : event.inner.handler = none)
      : Step s (.invoke i) (s.setPc i (.returned (.error .invalidTimedEventStatus)))
  | func {i : Nat} {call : Call F} {f : F} (hcall : s.calls[i]? = some call) (hpc : call.pc = .func f)
      : Step s (.func i) ({ s with ran := s.ran ++ [(call.id, f)] }.setPc i .running)
  | finish {i : Nat} {call : Call F} (hcall : s.calls[i]? = some call) (hpc : call.pc = .running)
      : Step s (.finish i) (s.setPc i (.returned (.ok ())))

theorem start_eq_next {s s' : TimedEvents F} {cpuId : Nat} {id : TimedEventId} {target : TimedEventStatus}
    (h : s.start cpuId id target = .next s')
    : id ∈ s.events ∧ s' = { s with calls := s.calls ++ [{ cpuId, id, target, pc := .remove }] } := by
  unfold TimedEvents.start at h
  split at h
  . next hmem =>
    simp only [Outcome.next.injEq] at h
    exact ⟨hmem, h.symm⟩
  . simp at h

theorem step_start {s s' : TimedEvents F} {a : TimedEventAction F} {cpuId : Nat} {id : TimedEventId}
    {target : TimedEventStatus} (htarget : target ≠ .pending) (h : s.start cpuId id target = .next s')
    : s.Step a s' := by
  obtain ⟨hmem, rfl⟩ := start_eq_next h
  exact .start hmem htarget

theorem step_remove {s s' : TimedEvents F} {i : Nat} (h : s.step (.remove i) = .next s')
    : ∃ (call : Call F) (event : TimedEvent F), s.calls[i]? = some call ∧ call.pc = .remove ∧
        s.events[call.id]? = some event ∧ s' = s.remove i call event := by
  simp only [step] at h
  split at h
  . next call hcall =>
    split at h
    . next event hpc hevent =>
      simp only [Outcome.next.injEq] at h
      exact ⟨call, event, hcall, hpc, hevent, h.symm⟩
    . simp at h
  . simp at h

theorem remove_cases (s : TimedEvents F) (i : Nat) (call : Call F) (event : TimedEvent F)
    : (∃ q, (s.queues event.tracker.cpuId).remove event.tracker.id = .ok q ∧
          s.remove i call event = (s.setQueue event.tracker.cpuId call.cpuId q).setPc i .invoke) ∨
        (event.tracker.id ∉ (s.queues event.tracker.cpuId).registry ∧
          s.remove i call event = s.setPc i (.returned (.error .invalidTimedEventStatus))) := by
  unfold TimedEvents.remove
  by_cases hreg : event.tracker.id ∈ (s.queues event.tracker.cpuId).registry
  . left
    simp only [TimedEventQueue.remove, hreg, if_true, Except.ok.injEq, exists_eq_left']
  . right
    refine ⟨hreg, ?_⟩
    simp only [TimedEventQueue.remove, hreg, if_false]

theorem step_invoke {s s' : TimedEvents F} {i : Nat} (h : s.step (.invoke i) = .next s')
    : ∃ (call : Call F) (event : TimedEvent F), s.calls[i]? = some call ∧ call.pc = .invoke ∧
        s.events[call.id]? = some event ∧ s.invoke i call event = .next s' := by
  simp only [step] at h
  split at h
  . next call hcall =>
    split at h
    . next event hpc hevent => exact ⟨call, event, hcall, hpc, hevent, h⟩
    . simp at h
  . simp at h

theorem invoke_cases {s s' : TimedEvents F} {i : Nat} {call : Call F} {event : TimedEvent F}
    (h : s.invoke i call event = .next s')
    : (∃ handler f, event.inner.handler = some handler ∧ handler.select call.target = some f ∧
          s' = {
            s with
            events := s.events.insert call.id
              { event with inner := { status := call.target, handler := none } }
          }.setPc i (.func f)) ∨
        (event.inner.handler = none ∧ s' = s.setPc i (.returned (.error .invalidTimedEventStatus))) := by
  unfold TimedEvents.invoke at h
  split at h
  . next hhandler =>
    simp only [Outcome.next.injEq] at h
    exact .inr ⟨hhandler, h.symm⟩
  . next handler hhandler =>
    split at h
    . simp at h
    . next f hf =>
      simp only [Outcome.next.injEq] at h
      exact .inl ⟨handler, f, hhandler, hf, h.symm⟩

theorem step_func {s s' : TimedEvents F} {i : Nat} (h : s.step (.func i) = .next s')
    : ∃ (call : Call F) (f : F), s.calls[i]? = some call ∧ call.pc = .func f ∧
        s' = { s with ran := s.ran ++ [(call.id, f)] }.setPc i .running := by
  simp only [step] at h
  split at h
  . next call hcall =>
    split at h
    . next f hpc =>
      simp only [Outcome.next.injEq] at h
      exact ⟨call, f, hcall, hpc, h.symm⟩
    . simp at h
  . simp at h

theorem step_finish {s s' : TimedEvents F} {i : Nat} (h : s.step (.finish i) = .next s')
    : ∃ call : Call F, s.calls[i]? = some call ∧ call.pc = .running ∧
        s' = s.setPc i (.returned (.ok ())) := by
  simp only [step] at h
  split at h
  . next call hcall =>
    split at h
    . next hpc =>
      simp only [Outcome.next.injEq] at h
      exact ⟨call, hcall, hpc, h.symm⟩
    . simp at h
  . simp at h

theorem step_cases {s s' : TimedEvents F} {a : TimedEventAction F} (h : s.step a = .next s')
    : s.Step a s' := by
  cases a with
  | create cpuId time handler =>
    simp only [step, Outcome.next.injEq] at h
    subst h
    exact .create cpuId time handler
  | timeout cpuId id => exact step_start (by simp) h
  | cancel cpuId id => exact step_start (by simp) h
  | remove i =>
    obtain ⟨call, event, hcall, hpc, hevent, rfl⟩ := step_remove h
    rcases s.remove_cases i call event with ⟨q, hok, heq⟩ | ⟨hgone, heq⟩
    . rw [heq]
      exact .removed hcall hpc hevent hok
    . rw [heq]
      exact .gone hcall hpc hevent hgone
  | invoke i =>
    obtain ⟨call, event, hcall, hpc, hevent, hinvoke⟩ := step_invoke h
    rcases invoke_cases hinvoke with ⟨handler, f, hhandler, hf, rfl⟩ | ⟨hhandler, rfl⟩
    . exact .invoked hcall hpc hevent hhandler hf
    . exact .taken hcall hpc hevent hhandler
  | func i =>
    obtain ⟨call, f, hcall, hpc, rfl⟩ := step_func h
    exact .func hcall hpc
  | finish i =>
    obtain ⟨call, hcall, hpc, rfl⟩ := step_finish h
    exact .finish hcall hpc

theorem start_calls {s : TimedEvents F} {call new : Call F} {i : Nat}
    (h : (s.calls ++ [new])[i]? = some call)
    : s.calls[i]? = some call ∨ call = new := by
  rw [List.getElem?_append] at h
  split at h
  . exact .inl h
  . rw [List.getElem?_singleton] at h
    split at h
    . exact .inr (by simpa using h.symm)
    . simp at h

inductive PcStep : TimedEventAction F → Nat → CallPc F → CallPc F → Prop where
  | removed (i : Nat) : PcStep (.remove i) i .remove .invoke
  | gone (i : Nat) : PcStep (.remove i) i .remove (.returned (.error .invalidTimedEventStatus))
  | invoked (i : Nat) (f : F) : PcStep (.invoke i) i .invoke (.func f)
  | taken (i : Nat) : PcStep (.invoke i) i .invoke (.returned (.error .invalidTimedEventStatus))
  | func (i : Nat) (f : F) : PcStep (.func i) i (.func f) .running
  | finish (i : Nat) : PcStep (.finish i) i .running (.returned (.ok ()))

theorem PcStep.call? {a : TimedEventAction F} {i : Nat} {pc pc' : CallPc F} (h : PcStep a i pc pc')
    : a.call? = some i := by
  cases h with
  | _ => rfl

theorem start_call {s : TimedEvents F} {call : Call F} {i : Nat} (hcall : s.calls[i]? = some call)
    (new : Call F)
    : (s.calls ++ [new])[i]? = some call := by
  rw [List.getElem?_append_left (List.getElem?_eq_some_iff.mp hcall).1]
  exact hcall

theorem setPc_call {s s' : TimedEvents F} {a : TimedEventAction F} {i j : Nat} {call call' : Call F}
    {old pc : CallPc F} (hpc : PcStep a i old pc) (hcalls : s'.calls = (s.setPc i pc).calls)
    (hcall : s.calls[i]? = some call) (hold : call.pc = old) (hcall' : s.calls[j]? = some call')
    : (a.call? ≠ some j ∧ s'.calls[j]? = some call') ∨
        ∃ pc, s'.calls[j]? = some { call' with pc } ∧ PcStep a j call'.pc pc := by
  rw [hcalls]
  by_cases hij : i = j
  . subst hij
    rw [hcall, Option.some.injEq] at hcall'
    subst hcall' hold
    exact .inr ⟨pc, setPc_calls_self hcall, hpc⟩
  . rw [setPc_calls_of_ne hij, hpc.call?]
    exact .inl ⟨by simpa using hij, hcall'⟩

theorem step_call {s s' : TimedEvents F} {a : TimedEventAction F} {j : Nat} {call : Call F}
    (h : s.step a = .next s') (hcall : s.calls[j]? = some call)
    : (a.call? ≠ some j ∧ s'.calls[j]? = some call) ∨
        ∃ pc, s'.calls[j]? = some { call with pc } ∧ PcStep a j call.pc pc := by
  cases a with
  | create =>
    simp only [step, Outcome.next.injEq] at h
    subst h
    exact .inl ⟨nofun, hcall⟩
  | timeout cpuId id =>
    obtain ⟨_, rfl⟩ := start_eq_next h
    exact .inl ⟨nofun, start_call hcall _⟩
  | cancel cpuId id =>
    obtain ⟨_, rfl⟩ := start_eq_next h
    exact .inl ⟨nofun, start_call hcall _⟩
  | remove i =>
    obtain ⟨call', event, hcall', hpc, _, rfl⟩ := step_remove h
    rcases s.remove_cases i call' event with ⟨q, _, heq⟩ | ⟨_, heq⟩
    . exact setPc_call (.removed i) (by rw [heq]; rfl) hcall' hpc hcall
    . exact setPc_call (.gone i) (by rw [heq]) hcall' hpc hcall
  | invoke i =>
    obtain ⟨call', event, hcall', hpc, _, hinvoke⟩ := step_invoke h
    rcases invoke_cases hinvoke with ⟨handler, f, _, _, rfl⟩ | ⟨_, rfl⟩
    . exact setPc_call (.invoked i f) rfl hcall' hpc hcall
    . exact setPc_call (.taken i) rfl hcall' hpc hcall
  | func i =>
    obtain ⟨call', f, hcall', hpc, rfl⟩ := step_func h
    exact setPc_call (.func i f) rfl hcall' hpc hcall
  | finish i =>
    obtain ⟨call', hcall', hpc, rfl⟩ := step_finish h
    exact setPc_call (.finish i) rfl hcall' hpc hcall

theorem Step.new_call {s s' : TimedEvents F} {a : TimedEventAction F} {j : Nat} {call : Call F}
    (hstep : s.Step a s') (hcall : s'.calls[j]? = some call) (hnone : s.calls[j]? = none)
    : call.pc = .remove := by
  cases hstep with
  | start =>
    rcases start_calls hcall with hcall | rfl
    . simp [hnone] at hcall
    . rfl
  | create => simp [TimedEvents.create, setQueue, hnone] at hcall
  | _ =>
    obtain ⟨call', hcall', _⟩ := setPc_calls hcall
    simp [setQueue, hnone] at hcall'

theorem Bounded.step {s s' : TimedEvents F} {a : TimedEventAction F} (h : s.Bounded)
    (hstep : s.Step a s')
    : s'.Bounded := by
  cases hstep with
  | create cpuId time handler =>
    constructor
    . intro id event hget
      simp only [TimedEvents.create, setQueue, ExtTreeMap.getElem?_insert] at hget ⊢
      split at hget
      . next heq =>
        simp only [Option.some.injEq] at hget
        have hid : (⟨s.nextId⟩ : TimedEventId) = id := by simpa using heq
        subst hget hid
        exact ⟨Nat.lt_succ_self _, rfl⟩
      . have := h.events id event hget
        exact ⟨by omega, this.2⟩
    . intro i call hcall
      have := h.calls i call hcall
      exact ⟨Nat.lt_succ_of_lt this.1, this.2⟩
    . intro e he
      exact Nat.lt_succ_of_lt (h.ran e he)
  | @start _ _ id target hmem htarget =>
    obtain ⟨event, hevent⟩ := SerialId.mem_iff_exists.mp hmem
    constructor
    . exact h.events
    . intro i call hcall
      rcases start_calls hcall with hcall | rfl
      . exact h.calls i call hcall
      . exact ⟨(h.events id event hevent).1, htarget⟩
    . exact h.ran
  | removed hcall hpc hevent hok =>
    apply Bounded.setPc
    exact ⟨h.events, h.calls, h.ran⟩
  | gone | taken | finish => exact h.setPc _ _
  | @invoked i call event handler f hcall hpc hevent hhandler hf =>
    apply Bounded.setPc
    constructor
    . intro id event' hget
      simp only [ExtTreeMap.getElem?_insert] at hget
      split at hget
      . next heq =>
        simp only [Option.some.injEq] at hget
        have hid : call.id = id := by simpa using heq
        subst hget hid
        exact h.events call.id event hevent
      . exact h.events id event' hget
    . exact h.calls
    . exact h.ran
  | @func i call f hcall hpc =>
    apply Bounded.setPc
    constructor
    . exact h.events
    . exact h.calls
    . intro e he
      rcases List.mem_append.mp he with he | he
      . exact h.ran e he
      . simp only [List.mem_singleton] at he
        rw [he]
        exact (h.calls i call hcall).1

structure Queued (s : TimedEvents F) : Prop where
  wf : ∀ cpuId, (s.queues cpuId).Wf
  created : ∀ (cpuId : Nat) (id : TimedEventId) (tracker : TimedEventTracker),
    (s.queues cpuId).registry[id]? = some tracker → tracker.id = id ∧ id ∈ s.events

theorem queued_init : (init : TimedEvents F).Queued := by
  constructor
  . intro cpuId
    exact TimedEventQueue.wf_new
  . simp [init, TimedEventQueue.new]

theorem Queued.of_eq {s s' : TimedEvents F} (h : s.Queued) (hqueues : s'.queues = s.queues)
    (hevents : ∀ id, id ∈ s.events → id ∈ s'.events)
    : s'.Queued := by
  constructor
  . rw [hqueues]
    exact h.wf
  . intro cpuId id tracker hget
    rw [hqueues] at hget
    have := h.created cpuId id tracker hget
    exact ⟨this.1, hevents id this.2⟩

theorem Bounded.new_not_mem {s : TimedEvents F} (hb : s.Bounded)
    : s.events[(⟨s.nextId⟩ : TimedEventId)]? = none := by
  by_contra hne
  obtain ⟨event, hevent⟩ := Option.ne_none_iff_exists'.mp hne
  exact absurd (hb.events _ event hevent).1 (Nat.lt_irrefl _)

theorem Queued.new_not_mem {s : TimedEvents F} (h : s.Queued) (hb : s.Bounded) (cpuId : Nat)
    : (⟨s.nextId⟩ : TimedEventId) ∉ (s.queues cpuId).registry := by
  intro hmem
  obtain ⟨tracker, hget⟩ := SerialId.mem_iff_exists.mp hmem
  obtain ⟨event, hevent⟩ := SerialId.mem_iff_exists.mp (h.created cpuId _ tracker hget).2
  simp [hb.new_not_mem] at hevent

theorem Queued.create {s : TimedEvents F} (h : s.Queued) (hb : s.Bounded) (cpuId : Nat)
    (time : Duration) (handler : TimedEventHandler F)
    : (s.create cpuId time handler).Queued := by
  have hnew := h.new_not_mem hb cpuId
  constructor
  . intro i
    simp only [TimedEvents.create, setQueue]
    split
    . exact (h.wf cpuId).add hnew
    . exact h.wf i
  . intro i id tracker hget
    simp only [TimedEvents.create, setQueue] at hget ⊢
    rw [ExtTreeMap.mem_insert]
    split at hget
    . simp only [TimedEventQueue.add, ExtTreeMap.getElem?_insert] at hget
      split at hget
      . next heq =>
        simp only [Option.some.injEq] at hget
        subst hget
        exact ⟨by simpa using heq, .inl heq⟩
      . have := h.created cpuId id tracker hget
        exact ⟨this.1, .inr this.2⟩
    . have := h.created i id tracker hget
      exact ⟨this.1, .inr this.2⟩

theorem Queued.removed {s : TimedEvents F} {cpuId : Nat} {id : TimedEventId} {q : TimedEventQueue}
    (h : s.Queued) (current : Nat) (hok : (s.queues cpuId).remove id = .ok q)
    : (s.setQueue cpuId current q).Queued := by
  constructor
  . intro i
    simp only [setQueue]
    split
    . exact (h.wf cpuId).remove hok
    . exact h.wf i
  . intro i id' tracker hget
    simp only [setQueue] at hget ⊢
    split at hget
    . apply h.created cpuId
      exact TimedEventQueue.remove_getElem? hok hget
    . exact h.created i id' tracker hget

theorem Queued.step {s s' : TimedEvents F} {a : TimedEventAction F} (h : s.Queued) (hb : s.Bounded)
    (hstep : s.Step a s')
    : s'.Queued := by
  cases hstep with
  | create cpuId time handler => exact h.create hb cpuId time handler
  | @removed _ call _ _ hcall hpc hevent hok =>
    have hqueue := h.removed call.cpuId hok
    exact hqueue.of_eq rfl (fun _ hmem => hmem)
  | start | gone | taken | func | finish => exact h.of_eq rfl (fun _ hmem => hmem)
  | invoked hcall hpc hevent hhandler hf =>
    refine h.of_eq rfl ?_
    intro id hmem
    simp only [setPc, ExtTreeMap.mem_insert]
    exact .inr hmem

end TimedEvents

end Jrinx
