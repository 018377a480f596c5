import Mathlib.Tactic
import Jrinx.Error
import Jrinx.Time
import Jrinx.Util.MinHeap
import Jrinx.Util.Outcome
import Jrinx.Util.SerialId

/-!
This module contains the queue of timed events that every CPU has, from `timed-event/src/lib.rs`.
-/

namespace Jrinx

open Std

structure TimedEventTracker where
  id : TimedEventId
  cpuId : Nat
  time : Duration
  deriving DecidableEq, Repr

structure TimedEventQueue where
  registry : ExtTreeMap TimedEventId TimedEventTracker
  queue : List (Duration × TimedEventId)

namespace TimedEventQueue

def new : TimedEventQueue where
  registry := ∅
  queue := []

def key (e : Duration × TimedEventId) : Nat ×ₗ Nat := toLex (e.1.nanos, e.2.val)

def first (q : TimedEventQueue) : Option (Duration × TimedEventId) := MinHeap.peek key q.queue

def peek (q : TimedEventQueue) : Outcome (Option TimedEventTracker) :=
  match q.first with
  | none => .next none
  | some (_, id) =>
    match q.registry[id]? with
    | some tracker => .next (some tracker)
    | none => .panic

def peekOutdated (q : TimedEventQueue) (now : Duration) : Outcome (Option TimedEventTracker) :=
  q.peek.map (·.filter (·.time ≤ now))

def add (q : TimedEventQueue) (tracker : TimedEventTracker) : TimedEventQueue where
  registry := q.registry.insert tracker.id tracker
  queue := (tracker.time, tracker.id) :: q.queue

def remove (q : TimedEventQueue) (id : TimedEventId) : Except InternalError TimedEventQueue :=
  if id ∈ q.registry then
    .ok
      {
        registry := q.registry.erase id
        queue := q.queue.filter (fun e => e.2 ≠ id)
      }
  else
    .error .invalidTimedEventStatus

def deadline (q : TimedEventQueue) : Duration :=
  match q.first with
  | some (time, _) => time
  | none => .max

theorem peek_eq_some {q : TimedEventQueue} {tracker : TimedEventTracker} (h : q.peek = .next (some tracker))
    : ∃ e ∈ q.queue, q.registry[e.2]? = some tracker := by
  unfold TimedEventQueue.peek at h
  split at h
  next => simp at h
  next time id hfirst =>
    split at h
    next found hget =>
      simp only [Outcome.next.injEq, Option.some.injEq] at h
      subst h
      exact ⟨(time, id), (MinHeap.peek_eq_some hfirst).1, hget⟩
    next => simp at h

theorem deadline_le {q : TimedEventQueue} {e : Duration × TimedEventId} (he : e ∈ q.queue)
    : q.deadline ≤ e.1 := by
  unfold deadline
  split
  . next time id hfirst =>
    have hle := (MinHeap.peek_eq_some hfirst).2 e he
    simp only [key, Prod.Lex.toLex_le_toLex] at hle
    rw [Duration.le_def]
    omega
  . next hnone =>
    rw [MinHeap.peek_eq_none_iff.mp hnone] at he
    simp at he

theorem deadline_of_nil {q : TimedEventQueue} (h : q.queue = []) : q.deadline = .max := by
  simp [deadline, first, h, MinHeap.peek]

theorem deadline_mem {q : TimedEventQueue} (h : q.queue ≠ []) : ∃ e ∈ q.queue, q.deadline = e.1 := by
  unfold deadline
  split
  . next time id hfirst => exact ⟨(time, id), (MinHeap.peek_eq_some hfirst).1, rfl⟩
  . next hnone => exact absurd (MinHeap.peek_eq_none_iff.mp hnone) h

theorem deadline_add {q : TimedEventQueue} {tracker : TimedEventTracker} (h : tracker.time ≤ q.deadline)
    : (q.add tracker).deadline = tracker.time := by
  have hmem : (tracker.time, tracker.id) ∈ (q.add tracker).queue := by
    simp [add]
  obtain ⟨e, he, hdeadline⟩ := deadline_mem (List.ne_nil_of_mem hmem)
  have hle := deadline_le hmem
  have hge : tracker.time ≤ e.1 := by
    rcases List.mem_cons.mp he with rfl | he
    . exact Nat.le_refl _
    . exact Nat.le_trans h (deadline_le he)
  rw [hdeadline, Duration.le_def] at hle
  rw [hdeadline]
  exact Duration.eq_of_nanos (Nat.le_antisymm hle hge)

theorem remove_queue_subset {q q' : TimedEventQueue} {id : TimedEventId} (hok : q.remove id = .ok q')
    : q'.queue ⊆ q.queue := by
  unfold TimedEventQueue.remove at hok
  split at hok
  . simp only [Except.ok.injEq] at hok
    subst hok
    apply List.Sublist.subset
    apply List.filter_sublist
  . simp at hok

theorem remove_mem_iff {q q' : TimedEventQueue} {id' : TimedEventId} (hok : q.remove id' = .ok q')
    : id' ∈ q.registry ∧ ∀ id, id ∈ q'.registry ↔ id ≠ id' ∧ id ∈ q.registry := by
  unfold TimedEventQueue.remove at hok
  split at hok
  . next hmem =>
    simp only [Except.ok.injEq] at hok
    subst hok
    refine ⟨hmem, ?_⟩
    intro id
    simp only [ExtTreeMap.mem_erase]
    grind
  . simp at hok

theorem remove_getElem? {q q' : TimedEventQueue} {id id' : TimedEventId} {tracker : TimedEventTracker}
    (hok : q.remove id = .ok q') (hget : q'.registry[id']? = some tracker)
    : q.registry[id']? = some tracker := by
  unfold TimedEventQueue.remove at hok
  split at hok
  . simp only [Except.ok.injEq] at hok
    subst hok
    simp only [ExtTreeMap.getElem?_erase] at hget
    grind
  . simp at hok

structure Wf (q : TimedEventQueue) : Prop where
  registered : ∀ e ∈ q.queue, ∃ tracker, q.registry[e.2]? = some tracker ∧ tracker.time = e.1
  queued : ∀ id (tracker : TimedEventTracker), q.registry[id]? = some tracker →
    (tracker.time, id) ∈ q.queue

theorem wf_new : new.Wf := by
  constructor <;> simp [new]

theorem Wf.add {q : TimedEventQueue} {tracker : TimedEventTracker} (h : q.Wf)
    (hnew : tracker.id ∉ q.registry)
    : (q.add tracker).Wf := by
  constructor
  . intro e he
    simp only [TimedEventQueue.add, List.mem_cons] at he
    simp only [TimedEventQueue.add, ExtTreeMap.getElem?_insert]
    rcases he with rfl | he
    . exact ⟨tracker, by simp, rfl⟩
    . obtain ⟨t, ht, htime⟩ := h.registered e he
      refine ⟨t, ?_, htime⟩
      grind
  . intro id t hget
    simp only [TimedEventQueue.add, ExtTreeMap.getElem?_insert] at hget
    have := h.queued id t
    simp only [TimedEventQueue.add]
    grind

theorem Wf.remove {q q' : TimedEventQueue} {id : TimedEventId} (h : q.Wf) (hok : q.remove id = .ok q')
    : q'.Wf := by
  unfold TimedEventQueue.remove at hok
  split at hok
  . simp only [Except.ok.injEq] at hok
    subst hok
    constructor
    . intro e he
      simp only [List.mem_filter, decide_eq_true_eq] at he
      obtain ⟨t, ht, htime⟩ := h.registered e he.1
      refine ⟨t, ?_, htime⟩
      simp only [ExtTreeMap.getElem?_erase]
      grind
    . intro id' t hget
      simp only [ExtTreeMap.getElem?_erase] at hget
      have := h.queued id' t
      grind
  . simp at hok

theorem Wf.peek_least {q : TimedEventQueue} (h : q.Wf)
    : (q.queue = [] ∧ q.first = none ∧ q.peek = .next none) ∨
        ∃ e tracker, q.first = some e ∧ q.peek = .next (some tracker) ∧ e ∈ q.queue ∧
          q.registry[e.2]? = some tracker ∧ tracker.time = e.1 ∧ ∀ e' ∈ q.queue, key e ≤ key e' := by
  unfold TimedEventQueue.peek
  cases hfirst : q.first with
  | none =>
    left
    exact ⟨MinHeap.peek_eq_none_iff.mp hfirst, rfl, rfl⟩
  | some e =>
    right
    obtain ⟨hmem, hle⟩ := MinHeap.peek_eq_some hfirst
    obtain ⟨tracker, hget, htime⟩ := h.registered e hmem
    exact ⟨e, tracker, rfl, by simp only [hget], hmem, hget, htime, hle⟩

theorem Wf.peek {q : TimedEventQueue} (h : q.Wf)
    : (q.queue = [] ∧ q.peek = .next none) ∨
        ∃ (id : TimedEventId) (tracker : TimedEventTracker), q.peek = .next (some tracker) ∧
          q.registry[id]? = some tracker ∧ q.deadline = tracker.time ∧ ∀ e ∈ q.queue, tracker.time ≤ e.1 := by
  rcases h.peek_least with ⟨hnil, _, hpeek⟩ | ⟨e, tracker, hfirst, hpeek, _, hget, htime, hle⟩
  . exact .inl ⟨hnil, hpeek⟩
  . refine .inr ⟨e.2, tracker, hpeek, hget, ?_, ?_⟩
    . simp only [deadline, hfirst, htime]
    . intro e' he'
      have := hle e' he'
      rw [htime, Duration.le_def]
      simp only [key, Prod.Lex.toLex_le_toLex] at this
      omega

def ids (q : TimedEventQueue) : List TimedEventId := q.queue.map Prod.snd

theorem Wf.mem_ids_iff {q : TimedEventQueue} {id : TimedEventId} (h : q.Wf)
    : id ∈ q.ids ↔ id ∈ q.registry := by
  rw [ids, List.mem_map]
  constructor
  . rintro ⟨e, he, rfl⟩
    obtain ⟨tracker, hget, _⟩ := h.registered e he
    exact SerialId.mem_iff_exists.mpr ⟨_, hget⟩
  . intro hmem
    obtain ⟨tracker, hget⟩ := SerialId.mem_iff_exists.mp hmem
    exact ⟨_, h.queued id tracker hget, rfl⟩

theorem Wf.nodup_add {q : TimedEventQueue} {tracker : TimedEventTracker} (h : q.Wf)
    (hnodup : q.ids.Nodup) (hnew : tracker.id ∉ q.registry)
    : (q.add tracker).ids.Nodup := by
  simp only [ids, TimedEventQueue.add, List.map_cons, List.nodup_cons]
  exact ⟨fun hmem => hnew (h.mem_ids_iff.mp hmem), hnodup⟩

theorem nodup_remove {q q' : TimedEventQueue} {id : TimedEventId} (hnodup : q.ids.Nodup)
    (hok : q.remove id = .ok q')
    : q'.ids.Nodup := by
  unfold TimedEventQueue.remove at hok
  split at hok
  . simp only [Except.ok.injEq] at hok
    subst hok
    refine List.Nodup.sublist ?_ hnodup
    apply List.Sublist.map
    apply List.filter_sublist
  . simp at hok

def dueCount (q : TimedEventQueue) (now : Duration) : Nat := q.queue.countP (fun e => e.1 ≤ now)

theorem dueCount_remove {q q' : TimedEventQueue} {id : TimedEventId} (now : Duration)
    (hok : q.remove id = .ok q')
    : q.dueCount now =
        q'.dueCount now + (q.queue.filter (fun e => e.2 = id)).countP (fun e => e.1 ≤ now) := by
  unfold TimedEventQueue.remove at hok
  split at hok
  . simp only [Except.ok.injEq] at hok
    subst hok
    unfold dueCount
    rw [List.countP_eq_countP_filter_add q.queue _ (fun e => decide (e.2 ≠ id))]
    simp
  . simp at hok

theorem Wf.dueCount_remove_lt {q q' : TimedEventQueue} {id : TimedEventId} {tracker : TimedEventTracker}
    {now : Duration} (h : q.Wf) (hok : q.remove id = .ok q') (hget : q.registry[id]? = some tracker)
    (hdue : tracker.time ≤ now)
    : q'.dueCount now < q.dueCount now := by
  have hpos : 0 < (q.queue.filter (fun e => e.2 = id)).countP (fun e => e.1 ≤ now) := by
    rw [List.countP_pos_iff]
    exact ⟨(tracker.time, id), by simp [h.queued id tracker hget], by simpa using hdue⟩
  rw [dueCount_remove now hok]
  omega

end TimedEventQueue

end Jrinx
