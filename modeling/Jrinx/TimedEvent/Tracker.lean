import Jrinx.TimedEvent.Queue

/-!
This module contains the calls of `TimedEventTracker::timeout` and `TimedEventTracker::cancel`. A call
removes the event from the queue of its CPU under the lock of the queue, and then takes the handler
out of the event under the lock of the event. Between these steps, any number of other calls on clones
of the tracker may make theirs, on any CPU.
-/

namespace Jrinx

open Std

inductive TimedEventStatus where
  | pending
  | timeout
  | cancelled
  deriving DecidableEq, Repr

structure TimedEventHandler (F : Type) where
  timeout : F
  cancel : F

structure TimedEventInner (F : Type) where
  status : TimedEventStatus
  handler : Option (TimedEventHandler F)

structure TimedEvent (F : Type) where
  tracker : TimedEventTracker
  inner : TimedEventInner F

inductive CallPc (F : Type) where
  | remove
  | invoke
  -- The handler is taken, its closure is not called yet.
  | func (f : F)
  | running
  | returned (result : Except InternalError Unit)

structure Call (F : Type) where
  cpuId : Nat
  id : TimedEventId
  target : TimedEventStatus
  pc : CallPc F

structure TimedEvents (F : Type) where
  queues : Nat → TimedEventQueue
  -- The deadline that was programmed last on a CPU.
  timers : Nat → Duration
  events : ExtTreeMap TimedEventId (TimedEvent F)
  nextId : Nat
  calls : List (Call F)
  -- The closures that were called, in their order.
  ran : List (TimedEventId × F)

inductive TimedEventAction (F : Type) where
  | create (cpuId : Nat) (time : Duration) (handler : TimedEventHandler F)
  | timeout (cpuId : Nat) (id : TimedEventId)
  | cancel (cpuId : Nat) (id : TimedEventId)
  | remove (call : Nat)
  | invoke (call : Nat)
  | func (call : Nat)
  | finish (call : Nat)

variable {F : Type}

namespace TimedEventHandler

def select (h : TimedEventHandler F) (target : TimedEventStatus) : Option F :=
  -- The closure for a status, `invoke` panics if there is none.
  match target with
  | .timeout => some h.timeout
  | .cancelled => some h.cancel
  | .pending => none

end TimedEventHandler

namespace TimedEvents

def init : TimedEvents F where
  queues _ := .new
  timers _ := .max
  events := ∅
  nextId := 0
  calls := []
  ran := []

def setQueue (s : TimedEvents F) (cpuId current : Nat) (q : TimedEventQueue) : TimedEvents F :=
  -- Change the queue of one CPU and program the timer of the CPU that does so.
  {
    s with
    queues := fun i => if i = cpuId then q else s.queues i
    timers := fun i => if i = current then q.deadline else s.timers i
  }

def setPc (s : TimedEvents F) (i : Nat) (pc : CallPc F) : TimedEvents F :=
  { s with calls := s.calls.modify i (fun call => { call with pc }) }

def create (s : TimedEvents F) (cpuId : Nat) (time : Duration) (handler : TimedEventHandler F)
    : TimedEvents F :=
  let tracker : TimedEventTracker := { id := ⟨s.nextId⟩, cpuId, time }
  let event : TimedEvent F := { tracker, inner := { status := .pending, handler := some handler } }
  let s := s.setQueue cpuId cpuId ((s.queues cpuId).add tracker)
  { s with events := s.events.insert tracker.id event, nextId := s.nextId + 1 }

def remove (s : TimedEvents F) (i : Nat) (call : Call F) (event : TimedEvent F) : TimedEvents F :=
  match (s.queues event.tracker.cpuId).remove event.tracker.id with
  | .ok q => (s.setQueue event.tracker.cpuId call.cpuId q).setPc i .invoke
  | .error e => s.setPc i (.returned (.error e))

def invoke (s : TimedEvents F) (i : Nat) (call : Call F) (event : TimedEvent F)
    : Outcome (TimedEvents F) :=
  match event.inner.handler with
  | none => .next (s.setPc i (.returned (.error .invalidTimedEventStatus)))
  | some handler =>
    match handler.select call.target with
    | none => .panic
    | some f =>
      let inner : TimedEventInner F := { status := call.target, handler := none }
      let s := { s with events := s.events.insert call.id { event with inner } }
      .next (s.setPc i (.func f))

def start (s : TimedEvents F) (cpuId : Nat) (id : TimedEventId) (target : TimedEventStatus)
    : Outcome (TimedEvents F) :=
  if id ∈ s.events then
    .next { s with calls := s.calls ++ [{ cpuId, id, target, pc := .remove }] }
  else
    .disabled

def step (s : TimedEvents F) (a : TimedEventAction F) : Outcome (TimedEvents F) :=
  match a with
  | .create cpuId time handler => .next (s.create cpuId time handler)
  | .timeout cpuId id => s.start cpuId id .timeout
  | .cancel cpuId id => s.start cpuId id .cancelled
  | .remove i =>
    match s.calls[i]? with
    | some call =>
      match call.pc, s.events[call.id]? with
      | .remove, some event => .next (s.remove i call event)
      | _, _ => .disabled
    | none => .disabled
  | .invoke i =>
    match s.calls[i]? with
    | some call =>
      match call.pc, s.events[call.id]? with
      | .invoke, some event => s.invoke i call event
      | _, _ => .disabled
    | none => .disabled
  | .func i =>
    match s.calls[i]? with
    | some call =>
      match call.pc with
      | .func f => .next ({ s with ran := s.ran ++ [(call.id, f)] }.setPc i .running)
      | _ => .disabled
    | none => .disabled
  | .finish i =>
    match s.calls[i]? with
    | some call =>
      match call.pc with
      | .running => .next (s.setPc i (.returned (.ok ())))
      | _ => .disabled
    | none => .disabled

end TimedEvents

end Jrinx
