import Jrinx.TimedEvent.Step

/-!
This module contains the proof that a timed event is handled exactly once, by the first call that
removes it from the queue.
-/

namespace Jrinx

open Std

variable {F : Type}

namespace TimedEvents

def ranOf (s : TimedEvents F) (id : TimedEventId) : List F :=
  (s.ran.filter (fun e => e.1 = id)).map Prod.snd

def Lost (call : Call F) : Prop :=
  call.pc = .remove ∨ call.pc = .returned (.error .invalidTimedEventStatus)

inductive Progress (h : TimedEventHandler F) (target : TimedEventStatus)
    : CallPc F → TimedEventInner F → List F → Prop where
  | invoke : Progress h target .invoke { status := .pending, handler := some h } []
  | func {f : F} (hf : h.select target = some f)
      : Progress h target (.func f) { status := target, handler := none } []
  | running {f : F} (hf : h.select target = some f)
      : Progress h target .running { status := target, handler := none } [f]
  | returned {f : F} (hf : h.select target = some f)
      : Progress h target (.returned (.ok ())) { status := target, handler := none } [f]

inductive Phase (s : TimedEvents F) (id : TimedEventId) (h : TimedEventHandler F) : Prop where
  | armed {event : TimedEvent F} (hevent : s.events[id]? = some event)
      (hinner : event.inner = { status := .pending, handler := some h })
      (hreg : id ∈ (s.queues event.tracker.cpuId).registry)
      (hcalls : ∀ (i : Nat) (call : Call F), s.calls[i]? = some call → call.id = id → call.pc = .remove)
      (hran : s.ranOf id = []) : Phase s id h
  | won {event : TimedEvent F} {i : Nat} {call : Call F} (hevent : s.events[id]? = some event)
      (hreg : id ∉ (s.queues event.tracker.cpuId).registry) (hcall : s.calls[i]? = some call)
      (hid : call.id = id) (hprogress : Progress h call.target call.pc event.inner (s.ranOf id))
      (hothers : ∀ (j : Nat) (call : Call F), j ≠ i → s.calls[j]? = some call → call.id = id → Lost call)
      : Phase s id h

variable {s s' : TimedEvents F} {id : TimedEventId} {h : TimedEventHandler F}

theorem Phase.frame (hphase : s.Phase id h) (hevents : s'.events[id]? = s.events[id]?)
    (hreg : ∀ cpuId, id ∈ (s'.queues cpuId).registry ↔ id ∈ (s.queues cpuId).registry)
    (hcalls : ∀ (i : Nat) (call : Call F), call.id = id →
      (s'.calls[i]? = some call ↔ s.calls[i]? = some call))
    (hran : s'.ranOf id = s.ranOf id)
    : s'.Phase id h := by
  cases hphase with
  | armed hevent hinner hmem hremove hnone =>
    refine .armed (hevents.trans hevent) hinner ((hreg _).mpr hmem) ?_ (hran.trans hnone)
    intro i call hcall hid
    exact hremove i call ((hcalls i call hid).mp hcall) hid
  | @won _ i call hevent hmem hcall hid hprogress hothers =>
    refine .won (hevents.trans hevent) (fun hin => hmem ((hreg _).mp hin)) ((hcalls i call hid).mpr hcall)
      hid (hran ▸ hprogress) ?_
    intro j call' hne hcall' hid'
    exact hothers j call' hne ((hcalls j call' hid').mp hcall') hid'

theorem setPc_calls_iff {i j : Nat} {pc : CallPc F} {call call' : Call F}
    (hcall : s.calls[i]? = some call) (hne : call.id ≠ id) (hid : call'.id = id)
    : (s.setPc i pc).calls[j]? = some call' ↔ s.calls[j]? = some call' := by
  by_cases hij : i = j
  . subst hij
    rw [setPc_calls_self hcall, hcall]
    constructor
    . intro heq
      simp only [Option.some.injEq] at heq
      subst heq
      exact absurd hid hne
    . intro heq
      simp only [Option.some.injEq] at heq
      subst heq
      exact absurd hid hne
  . rw [setPc_calls_of_ne hij]

theorem Phase.setPc_of_ne {i : Nat} {pc : CallPc F} {call : Call F} (hphase : s.Phase id h)
    (hcall : s.calls[i]? = some call) (hne : call.id ≠ id)
    : (s.setPc i pc).Phase id h := by
  apply hphase.frame
  . rfl
  . exact fun _ => Iff.rfl
  . intro j call' hid'
    exact setPc_calls_iff hcall hne hid'
  . rfl

theorem Phase.create (hphase : s.Phase id h) (hlt : id.val < s.nextId) (cpuId : Nat) (time : Duration)
    (handler : TimedEventHandler F)
    : (s.create cpuId time handler).Phase id h := by
  have hne : (⟨s.nextId⟩ : TimedEventId) ≠ id := by
    rintro rfl
    simp at hlt
  apply hphase.frame
  . simp only [TimedEvents.create, setQueue, ExtTreeMap.getElem?_insert]
    simp [hne]
  . intro cpuId'
    simp only [TimedEvents.create, setQueue]
    split
    . next heq =>
      subst heq
      simp [TimedEventQueue.add, hne]
    . rfl
  . exact fun _ _ _ => Iff.rfl
  . rfl

theorem Phase.start {id' : TimedEventId} {cpuId : Nat} {target : TimedEventStatus}
    (hphase : s.Phase id h)
    : Phase { s with calls := s.calls ++ [{ cpuId, id := id', target, pc := .remove }] } id h := by
  cases hphase with
  | armed hevent hinner hmem hremove hnone =>
    refine .armed hevent hinner hmem ?_ hnone
    intro i call hcall hid
    rcases start_calls hcall with hcall | rfl
    . exact hremove i call hcall hid
    . rfl
  | @won _ k winner hevent hmem hcall hid hprogress hothers =>
    refine .won hevent hmem (start_call hcall _) hid hprogress ?_
    intro j call' hne hcall' hid'
    rcases start_calls hcall' with hcall' | rfl
    . exact hothers j call' hne hcall' hid'
    . exact .inl rfl

theorem Phase.removed {i : Nat} {call : Call F} {event : TimedEvent F} {q : TimedEventQueue}
    (hphase : s.Phase id h) (hb : s.Bounded) (hcall : s.calls[i]? = some call)
    (hevent : s.events[call.id]? = some event)
    (hok : (s.queues event.tracker.cpuId).remove event.tracker.id = .ok q)
    : ((s.setQueue event.tracker.cpuId call.cpuId q).setPc i .invoke).Phase id h := by
  obtain ⟨hmem, hiff⟩ := TimedEventQueue.remove_mem_iff hok
  have htracker := (hb.events _ _ hevent).2
  rw [htracker] at hmem hiff
  by_cases hid : call.id = id
  . subst hid
    cases hphase with
    | armed hevent' hinner _ hremove hnone =>
      rw [hevent, Option.some.injEq] at hevent'
      subst hevent'
      refine .won hevent ?_ (setPc_calls_self hcall) rfl ?_ ?_
      . simp [setPc, setQueue, hiff]
      . have hran : ((s.setQueue event.tracker.cpuId call.cpuId q).setPc i .invoke).ranOf call.id = [] :=
          hnone
        rw [hinner, hran]
        exact .invoke
      . intro j call' hne hcall' hid'
        rw [setPc_calls_of_ne (Ne.symm hne)] at hcall'
        exact .inl (hremove j call' hcall' hid')
    | won hevent' hgone =>
      rw [hevent, Option.some.injEq] at hevent'
      subst hevent'
      exact absurd hmem hgone
  . refine Phase.setPc_of_ne ?_ hcall hid
    apply hphase.frame
    . rfl
    . intro cpuId'
      simp only [setQueue]
      split
      . next heq =>
        subst heq
        simp [hiff, Ne.symm hid]
      . rfl
    . exact fun _ _ _ => Iff.rfl
    . rfl

theorem Phase.gone {i : Nat} {call : Call F} {event : TimedEvent F} (hphase : s.Phase id h)
    (hb : s.Bounded) (hcall : s.calls[i]? = some call) (hpc : call.pc = .remove)
    (hevent : s.events[call.id]? = some event)
    (hgone : event.tracker.id ∉ (s.queues event.tracker.cpuId).registry)
    : (s.setPc i (.returned (.error .invalidTimedEventStatus))).Phase id h := by
  rw [(hb.events _ _ hevent).2] at hgone
  by_cases hid : call.id = id
  . subst hid
    cases hphase with
    | armed hevent' _ hmem =>
      rw [hevent, Option.some.injEq] at hevent'
      subst hevent'
      exact absurd hmem hgone
    | @won _ k winner hevent' hmem hwinner hid' hprogress hothers =>
      have hki : i ≠ k := by
        rintro rfl
        rw [hcall, Option.some.injEq] at hwinner
        subst hwinner
        rw [hpc] at hprogress
        cases hprogress
      rw [← setPc_calls_of_ne hki] at hwinner
      refine .won hevent' hmem hwinner hid' hprogress ?_
      intro j call' hne hcall' hcallid
      obtain ⟨old, hold, rfl⟩ := setPc_calls hcall'
      split
      . exact .inr rfl
      . next hij =>
        rw [if_neg hij] at hcallid
        exact hothers j old hne hold hcallid
  . exact hphase.setPc_of_ne hcall hid

theorem Phase.winner {i : Nat} {call : Call F} (hphase : s.Phase id h)
    (hcall : s.calls[i]? = some call) (hid : call.id = id) (hnot : ¬ Lost call)
    : ∃ event, s.events[id]? = some event ∧ id ∉ (s.queues event.tracker.cpuId).registry ∧
        Progress h call.target call.pc event.inner (s.ranOf id) ∧
        ∀ (j : Nat) (call : Call F), j ≠ i → s.calls[j]? = some call → call.id = id → Lost call := by
  cases hphase with
  | armed _ _ _ hremove => exact absurd (.inl (hremove i call hcall hid)) hnot
  | @won event k winner hevent hmem hwinner _ hprogress hothers =>
    have hik : i = k := by
      by_contra hne
      exact hnot (hothers i call hne hcall hid)
    subst hik
    rw [hcall, Option.some.injEq] at hwinner
    subst hwinner
    exact ⟨event, hevent, hmem, hprogress, hothers⟩

theorem Phase.advance {s₁ : TimedEvents F} {i : Nat} {call : Call F} {pc : CallPc F} {l : List F}
    (event : TimedEvent F) (hcall : s.calls[i]? = some call) (hid : call.id = id)
    (hcalls : s₁.calls = s.calls) (hqueues : s₁.queues = s.queues)
    (hevent : s₁.events[id]? = some event) (hmem : id ∉ (s.queues event.tracker.cpuId).registry)
    (hran : s₁.ranOf id = l) (hprogress : Progress h call.target pc event.inner l)
    (hothers : ∀ (j : Nat) (call : Call F), j ≠ i → s.calls[j]? = some call → call.id = id → Lost call)
    : (s₁.setPc i pc).Phase id h := by
  subst hran
  have hcall₁ : s₁.calls[i]? = some call := by rw [hcalls, hcall]
  refine .won hevent ?_ (setPc_calls_self hcall₁) hid hprogress ?_
  . simpa [setPc, hqueues] using hmem
  . intro j call' hne hcall' hid'
    rw [setPc_calls_of_ne (Ne.symm hne), hcalls] at hcall'
    exact hothers j call' hne hcall' hid'

theorem not_lost_of_pc {call : Call F} (h₁ : call.pc ≠ .remove)
    (h₂ : call.pc ≠ .returned (.error .invalidTimedEventStatus))
    : ¬ Lost call := by
  rintro (h | h)
  . exact h₁ h
  . exact h₂ h

theorem Phase.invoked {i : Nat} {call : Call F} {event : TimedEvent F} {handler : TimedEventHandler F}
    {f : F} (hphase : s.Phase id h) (hcall : s.calls[i]? = some call) (hpc : call.pc = .invoke)
    (hevent : s.events[call.id]? = some event) (hhandler : event.inner.handler = some handler)
    (hf : handler.select call.target = some f)
    : Phase
        ({
          s with
          events := s.events.insert call.id
            { event with inner := { status := call.target, handler := none } }
        }.setPc i (.func f)) id h := by
  by_cases hid : call.id = id
  . obtain ⟨event', hevent', hmem, hprogress, hothers⟩ :=
      hphase.winner hcall hid (not_lost_of_pc (by simp [hpc]) (by simp [hpc]))
    rw [hid, hevent', Option.some.injEq] at hevent
    subst hevent
    rw [hpc] at hprogress
    generalize hinner : event'.inner = inner at hprogress
    generalize hran : s.ranOf id = l at hprogress
    cases hprogress with
    | invoke =>
      rw [hinner, Option.some.injEq] at hhandler
      subst hhandler
      refine Phase.advance { event' with inner := ⟨call.target, none⟩ } hcall hid rfl rfl ?_ hmem hran
        (.func hf) hothers
      simp [hid]
  . refine Phase.setPc_of_ne ?_ hcall hid
    apply hphase.frame
    . simp only [ExtTreeMap.getElem?_insert]
      simp [hid]
    . exact fun _ => Iff.rfl
    . exact fun _ _ _ => Iff.rfl
    . rfl

theorem Phase.taken {i : Nat} {call : Call F} {event : TimedEvent F} (hphase : s.Phase id h)
    (hcall : s.calls[i]? = some call) (hpc : call.pc = .invoke)
    (hevent : s.events[call.id]? = some event) (hhandler : event.inner.handler = none)
    : (s.setPc i (.returned (.error .invalidTimedEventStatus))).Phase id h := by
  by_cases hid : call.id = id
  . obtain ⟨event', hevent', hmem, hprogress, hothers⟩ :=
      hphase.winner hcall hid (not_lost_of_pc (by simp [hpc]) (by simp [hpc]))
    rw [hid, hevent', Option.some.injEq] at hevent
    subst hevent
    rw [hpc] at hprogress
    generalize hinner : event'.inner = inner at hprogress
    generalize s.ranOf id = l at hprogress
    cases hprogress with
    | invoke => simp [hinner] at hhandler
  . exact hphase.setPc_of_ne hcall hid

theorem Phase.func {i : Nat} {call : Call F} {f : F} (hphase : s.Phase id h)
    (hcall : s.calls[i]? = some call) (hpc : call.pc = .func f)
    : Phase ({ s with ran := s.ran ++ [(call.id, f)] }.setPc i .running) id h := by
  by_cases hid : call.id = id
  . obtain ⟨event, hevent, hmem, hprogress, hothers⟩ :=
      hphase.winner hcall hid (not_lost_of_pc (by simp [hpc]) (by simp [hpc]))
    rw [hpc] at hprogress
    generalize hinner : event.inner = inner at hprogress
    generalize hran : s.ranOf id = l at hprogress
    cases hprogress with
    | func hf =>
      have hran' : TimedEvents.ranOf { s with ran := s.ran ++ [(call.id, f)] } id = [f] := by
        simp only [ranOf, List.map_eq_nil_iff] at hran
        simp [ranOf, hran, hid]
      refine Phase.advance event hcall hid rfl rfl hevent hmem hran' ?_ hothers
      rw [hinner]
      exact .running hf
  . refine Phase.setPc_of_ne ?_ hcall hid
    apply hphase.frame
    . rfl
    . exact fun _ => Iff.rfl
    . exact fun _ _ _ => Iff.rfl
    . simp [ranOf, hid]

theorem Phase.finish {i : Nat} {call : Call F} (hphase : s.Phase id h)
    (hcall : s.calls[i]? = some call) (hpc : call.pc = .running)
    : (s.setPc i (.returned (.ok ()))).Phase id h := by
  by_cases hid : call.id = id
  . obtain ⟨event, hevent, hmem, hprogress, hothers⟩ :=
      hphase.winner hcall hid (not_lost_of_pc (by simp [hpc]) (by simp [hpc]))
    rw [hpc] at hprogress
    generalize hinner : event.inner = inner at hprogress
    generalize hran : s.ranOf id = l at hprogress
    cases hprogress with
    | running hf =>
      refine Phase.advance event hcall hid rfl rfl hevent hmem hran ?_ hothers
      rw [hinner]
      exact .returned hf
  . exact hphase.setPc_of_ne hcall hid

theorem Phase.step {a : TimedEventAction F} (hphase : s.Phase id h) (hb : s.Bounded)
    (hlt : id.val < s.nextId) (hstep : s.Step a s')
    : s'.Phase id h := by
  cases hstep with
  | create cpuId time handler => exact hphase.create hlt cpuId time handler
  | start => exact hphase.start
  | removed hcall _ hevent hok => exact hphase.removed hb hcall hevent hok
  | gone hcall hpc hevent hgone => exact hphase.gone hb hcall hpc hevent hgone
  | invoked hcall hpc hevent hhandler hf => exact hphase.invoked hcall hpc hevent hhandler hf
  | taken hcall hpc hevent hhandler => exact hphase.taken hcall hpc hevent hhandler
  | func hcall hpc => exact hphase.func hcall hpc
  | finish hcall hpc => exact hphase.finish hcall hpc

theorem Step.nextId_le {a : TimedEventAction F} (hstep : s.Step a s') : s.nextId ≤ s'.nextId := by
  cases hstep with
  | create => exact Nat.le_succ _
  | _ => exact Nat.le_refl _

theorem create_events_self (cpuId : Nat) (time : Duration)
    : (s.create cpuId time h).events[(⟨s.nextId⟩ : TimedEventId)]? =
        some ⟨⟨⟨s.nextId⟩, cpuId, time⟩, ⟨.pending, some h⟩⟩ := by
  simp [TimedEvents.create]

theorem phase_create (hb : s.Bounded) (cpuId : Nat) (time : Duration)
    : (s.create cpuId time h).Phase ⟨s.nextId⟩ h := by
  refine .armed (create_events_self cpuId time) rfl ?_ ?_ ?_
  . simp [TimedEvents.create, setQueue, TimedEventQueue.add]
  . intro i call hcall hid
    have := (hb.calls i call hcall).1
    rw [hid] at this
    simp at this
  . simp only [ranOf, List.map_eq_nil_iff, List.filter_eq_nil_iff, decide_eq_true_eq]
    intro e he hid
    have := hb.ran e he
    rw [hid] at this
    simp at this

theorem bounded_of_run {as : List (TimedEventAction F)}
    (hrun : Run TimedEvents.step (fun _ _ => True) s as s') (hb : s.Bounded)
    : s'.Bounded :=
  hrun.invariant Bounded hb (fun _ _ _ hs _ hstep => hs.step (step_cases hstep))

def Won (s : TimedEvents F) (id : TimedEventId) (i : Nat) : Prop :=
  ∃ call, s.calls[i]? = some call ∧ call.id = id ∧ ¬ Lost call

/--
The event `id`, which was created with the handler `h`, is handled by exactly one of the calls.
-/
structure ExactlyOnce (s : TimedEvents F) (id : TimedEventId) (h : TimedEventHandler F) : Prop where
  unique : ∀ i j, s.Won id i → s.Won id j → i = j
  -- One of the calls that have made their first step has removed the event.
  exists_won : ∀ (i : Nat) (call : Call F), s.calls[i]? = some call → call.id = id → call.pc ≠ .remove →
    ∃ j, s.Won id j
  not_won : (∀ i, ¬ s.Won id i) → s.ranOf id = [] ∧
    ∃ event, s.events[id]? = some event ∧ id ∈ (s.queues event.tracker.cpuId).registry ∧
      event.inner = { status := .pending, handler := some h }
  -- The second step of this call does not fail.
  invoke : ∀ (i : Nat) (call : Call F), s.calls[i]? = some call → call.id = id → call.pc = .invoke →
    ∃ f s', h.select call.target = some f ∧ s.step (.invoke i) = .next s' ∧
      s'.calls[i]? = some { call with pc := .func f }
  -- It is the only one that returns `Ok`, its closure was called once, and the status is the one
  -- that it has set.
  returned : ∀ (i : Nat) (call : Call F), s.calls[i]? = some call → call.id = id →
    call.pc = .returned (.ok ()) →
    s.Won id i ∧ (∃ f, h.select call.target = some f ∧ s.ranOf id = [f]) ∧
      ∃ event, s.events[id]? = some event ∧ event.inner = { status := call.target, handler := none }
  -- At no time more than this one closure was called.
  ran : s.ranOf id = [] ∨ ∃ i call f, s.Won id i ∧ s.calls[i]? = some call ∧
    h.select call.target = some f ∧ s.ranOf id = [f]
  -- All the other calls fail in their first step.
  lost : ∀ (i : Nat) (call : Call F), s.calls[i]? = some call → call.id = id → ¬ s.Won id i →
    call.pc = .remove ∨ call.pc = .returned (.error .invalidTimedEventStatus)
  -- Such a step changes neither a queue nor an event.
  unchanged : ∀ (i : Nat) (call : Call F), s.calls[i]? = some call → call.id = id → call.pc = .remove →
    (∃ j, s.Won id j) →
    ∃ s', s.step (.remove i) = .next s' ∧ s'.queues = s.queues ∧ s'.events = s.events ∧
      s'.timers = s.timers ∧ s'.ran = s.ran ∧
      s'.calls[i]? = some { call with pc := .returned (.error .invalidTimedEventStatus) }

theorem Progress.not_lost {call : Call F} {inner : TimedEventInner F} {l : List F}
    (hprogress : Progress h call.target call.pc inner l)
    : ¬ Lost call := by
  generalize hpc : call.pc = pc at hprogress
  apply not_lost_of_pc
  . rw [hpc]
    rintro rfl
    cases hprogress
  . rw [hpc]
    rintro rfl
    cases hprogress

theorem Phase.exists_won {i : Nat} {call : Call F} (hphase : s.Phase id h)
    (hcall : s.calls[i]? = some call) (hid : call.id = id) (hpc : call.pc ≠ .remove)
    : ∃ j, s.Won id j := by
  cases hphase with
  | armed _ _ _ hremove => exact absurd (hremove i call hcall hid) hpc
  | @won _ k winner _ _ hwinner hid' hprogress _ => exact ⟨k, winner, hwinner, hid', hprogress.not_lost⟩

theorem Phase.invoke {i : Nat} {call : Call F} (hphase : s.Phase id h) (hb : s.Bounded)
    (hcall : s.calls[i]? = some call) (hid : call.id = id) (hpc : call.pc = .invoke)
    : ∃ f s', h.select call.target = some f ∧ s.step (.invoke i) = .next s' ∧
        s'.calls[i]? = some { call with pc := .func f } := by
  obtain ⟨f, hf⟩ : ∃ f, h.select call.target = some f := by
    cases htarget : call.target with
    | pending => exact absurd htarget (hb.calls i call hcall).2
    | timeout => exact ⟨h.timeout, rfl⟩
    | cancelled => exact ⟨h.cancel, rfl⟩
  obtain ⟨event, hevent, _, hprogress, _⟩ :=
    hphase.winner hcall hid (not_lost_of_pc (by simp [hpc]) (by simp [hpc]))
  rw [hpc] at hprogress
  generalize hinner : event.inner = inner at hprogress
  generalize s.ranOf id = l at hprogress
  cases hprogress with
  | invoke =>
    subst hid
    simp only [TimedEvents.step, hcall, hpc, hevent, TimedEvents.invoke, hinner, hf]
    refine ⟨f, _, rfl, rfl, ?_⟩
    apply setPc_calls_self
    exact hcall

theorem Phase.returned {i : Nat} {call : Call F} (hphase : s.Phase id h)
    (hcall : s.calls[i]? = some call) (hid : call.id = id) (hpc : call.pc = .returned (.ok ()))
    : s.Won id i ∧ (∃ f, h.select call.target = some f ∧ s.ranOf id = [f]) ∧
        ∃ event, s.events[id]? = some event ∧
          event.inner = { status := call.target, handler := none } := by
  have hnot : ¬ Lost call := not_lost_of_pc (by simp [hpc]) (by simp [hpc])
  obtain ⟨event, hevent, _, hprogress, _⟩ := hphase.winner hcall hid hnot
  rw [hpc] at hprogress
  generalize hinner : event.inner = inner at hprogress
  generalize hran : s.ranOf id = l at hprogress ⊢
  cases hprogress with
  | @returned f hf => exact ⟨⟨call, hcall, hid, hnot⟩, ⟨f, hf, rfl⟩, event, hevent, hinner⟩

theorem Phase.ran (hphase : s.Phase id h)
    : s.ranOf id = [] ∨ ∃ i call f, s.Won id i ∧ s.calls[i]? = some call ∧
        h.select call.target = some f ∧ s.ranOf id = [f] := by
  cases hphase with
  | armed _ _ _ _ hnone => exact .inl hnone
  | @won event i call _ _ hcall hid hprogress _ =>
    have hnot := hprogress.not_lost
    generalize call.pc = pc at hprogress
    generalize event.inner = inner at hprogress
    generalize s.ranOf id = l at hprogress ⊢
    cases hprogress with
    | invoke | func => exact .inl rfl
    | running hf | returned hf => exact .inr ⟨i, call, _, ⟨call, hcall, hid, hnot⟩, hcall, hf, rfl⟩

theorem Phase.unchanged {i : Nat} {call : Call F} (hphase : s.Phase id h) (hb : s.Bounded)
    (hcall : s.calls[i]? = some call) (hid : call.id = id) (hpc : call.pc = .remove)
    (hwon : ∃ j, s.Won id j)
    : ∃ s', s.step (.remove i) = .next s' ∧ s'.queues = s.queues ∧ s'.events = s.events ∧
        s'.timers = s.timers ∧ s'.ran = s.ran ∧
        s'.calls[i]? = some { call with pc := .returned (.error .invalidTimedEventStatus) } := by
  obtain ⟨j, winner, hwinner, hid', hnot⟩ := hwon
  obtain ⟨event, hevent, hmem, _⟩ := hphase.winner hwinner hid' hnot
  have htracker := (hb.events id event hevent).2
  refine ⟨s.setPc i (.returned (.error .invalidTimedEventStatus)), ?_, rfl, rfl, rfl, rfl, ?_⟩
  . simp [TimedEvents.step, hcall, hpc, hid, hevent, TimedEvents.remove, TimedEventQueue.remove,
      htracker, hmem]
  . exact setPc_calls_self hcall

theorem Phase.exactlyOnce (hphase : s.Phase id h) (hb : s.Bounded) : s.ExactlyOnce id h := by
  constructor
  . rintro i j ⟨call, hcall, hid, hnot⟩ ⟨call', hcall', hid', hnot'⟩
    obtain ⟨_, _, _, _, hothers⟩ := hphase.winner hcall hid hnot
    by_contra hne
    exact hnot' (hothers j call' (Ne.symm hne) hcall' hid')
  . exact fun i call hcall hid hpc => hphase.exists_won hcall hid hpc
  . intro hnone
    cases hphase with
    | @armed event hevent hinner hreg _ hran => exact ⟨hran, event, hevent, hreg, hinner⟩
    | @won _ i call _ _ hcall hid hprogress _ =>
      exact absurd ⟨call, hcall, hid, hprogress.not_lost⟩ (hnone i)
  . exact fun i call hcall hid hpc => hphase.invoke hb hcall hid hpc
  . exact fun i call hcall hid hpc => hphase.returned hcall hid hpc
  . exact hphase.ran
  . intro i call hcall hid hnot
    by_contra hlost
    exact hnot ⟨call, hcall, hid, hlost⟩
  . exact fun i call hcall hid hpc hwon => hphase.unchanged hb hcall hid hpc hwon

/--
Whatever calls are made after the event was created and however their steps are interleaved, the event
is handled exactly once.
-/
theorem exactlyOnce_of_create {as bs : List (TimedEventAction F)} {s₀ s₁ s : TimedEvents F}
    {cpuId : Nat} {time : Duration} {h : TimedEventHandler F}
    (hbefore : Run TimedEvents.step (fun _ _ => True) TimedEvents.init as s₀)
    (hcreate : s₀.step (.create cpuId time h) = .next s₁)
    (hafter : Run TimedEvents.step (fun _ _ => True) s₁ bs s)
    : s.ExactlyOnce ⟨s₀.nextId⟩ h := by
  have hb₀ := bounded_of_run hbefore bounded_init
  have hb₁ := hb₀.step (step_cases hcreate)
  simp only [TimedEvents.step, Outcome.next.injEq] at hcreate
  subst hcreate
  have hall : s.Bounded ∧ s₀.nextId < s.nextId ∧ s.Phase ⟨s₀.nextId⟩ h := by
    apply hafter.invariant (fun s => s.Bounded ∧ s₀.nextId < s.nextId ∧ s.Phase ⟨s₀.nextId⟩ h)
    . exact ⟨hb₁, Nat.lt_succ_self _, phase_create hb₀ cpuId time⟩
    . rintro t t' a ⟨hb, hlt, hphase⟩ _ hstep
      have hstep := step_cases hstep
      exact ⟨hb.step hstep, Nat.lt_of_lt_of_le hlt hstep.nextId_le, hphase.step hb hlt hstep⟩
  exact hall.2.2.exactlyOnce hall.1

def racingCalls : List (TimedEventAction Nat) :=
  -- A cancellation from another CPU gets in between the two steps of a timeout.
  [.timeout 0 ⟨0⟩, .cancel 1 ⟨0⟩, .remove 0, .remove 1, .invoke 0, .func 0, .finish 0]

theorem exactlyOnce_racingCalls
    : ∃ s₁ s, init.step (.create 0 .zero ⟨7, 8⟩) = .next s₁ ∧
        Run TimedEvents.step (fun _ _ => True) s₁ racingCalls s ∧ s.ranOf ⟨0⟩ = [7] ∧
        s.ExactlyOnce ⟨0⟩ ⟨7, 8⟩ := by
  refine ⟨init.create 0 .zero ⟨7, 8⟩, ?_⟩
  obtain ⟨s, hrun, hran⟩ := exists_run_of_exec TimedEvents.step (init.create 0 .zero ⟨7, 8⟩) racingCalls
    (fun s => s.ranOf ⟨0⟩ = [7]) (by decide +kernel)
  rw [decide_eq_true_eq] at hran
  exact ⟨s, rfl, hrun, hran, exactlyOnce_of_create (.nil _) rfl hrun⟩

end TimedEvents

end Jrinx
