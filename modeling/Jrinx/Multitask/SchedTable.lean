import Jrinx.Error
import Jrinx.Time
import Jrinx.Util.Outcome
import Jrinx.Util.SerialId
import Jrinx.Util.SortUnstable

/-!
This module contains the schedule table of `multitask/src/runtime.rs` as the scheduling loop sees it:
the entries in the order of their offsets, the index of the next one, and the start of the current
frame. A new table is accepted if its slots are in order and periodic.
-/

namespace Jrinx

structure RuntimeSchedTableEntry where
  inspectorId : InspectorId
  offset : Duration
  period : Duration
  duration : Duration
  deriving DecidableEq, Repr

structure RuntimeSchedTable where
  frameSize : Duration
  table : List RuntimeSchedTableEntry
  next : Nat
  datum : Duration
  deriving DecidableEq, Repr

namespace RuntimeSchedTableEntry

def byOffset (e : RuntimeSchedTableEntry) : Nat := e.offset.nanos

def byIdAndOffset (e : RuntimeSchedTableEntry) : Nat ×ₗ Nat := toLex (e.inspectorId.val, e.offset.nanos)

end RuntimeSchedTableEntry

namespace RuntimeSchedTable

def validSlots (frameSize : Duration) (table : List RuntimeSchedTableEntry) : Outcome Bool :=
  match table with
  | [] => .next true
  | [entry] => .next (entry.offset < frameSize)
  | entry :: nextEntry :: table =>
    if entry.offset < frameSize then
      match entry.offset.add entry.duration with
      | none => .panic
      | some stop =>
        if stop ≤ nextEntry.offset then validSlots frameSize (nextEntry :: table) else .next false
    else
      .next false

def sameParameters (entries : List RuntimeSchedTableEntry) : Bool :=
  match entries with
  | head :: tail => tail.all (fun e => e.period = head.period && e.duration = head.duration)
  | [] => false

def actualPeriod (frameSize : Duration) (e₁ e₂ : RuntimeSchedTableEntry) : Option Duration :=
  if e₂.offset ≤ e₁.offset then
    (e₂.offset.add frameSize).bind (·.sub e₁.offset)
  else
    e₂.offset.sub e₁.offset

def inPeriod (frameSize : Duration) (e : RuntimeSchedTableEntry × RuntimeSchedTableEntry)
    : Outcome Bool :=
  match actualPeriod frameSize e.1 e.2 with
  | none => .panic
  | some period => .next (period = e.1.period)

def windows (entries : List RuntimeSchedTableEntry)
    : List (RuntimeSchedTableEntry × RuntimeSchedTableEntry) :=
  -- Every entry with the one that comes after it, which is the first one after the last one.
  let cycle := entries ++ entries.take 1
  cycle.zip cycle.tail

def valid (t : RuntimeSchedTable) (sort : SortUnstable RuntimeSchedTableEntry.byIdAndOffset)
    : Outcome Bool :=
  let groups := SortedGroups.groups (·.inspectorId.val) (sort.sort t.table)
  (validSlots t.frameSize t.table).and
    ((Outcome.next (groups.all sameParameters)).and
      (Outcome.all (fun entries => Outcome.all (inPeriod t.frameSize) (windows entries)) groups))

def new (sortByOffset : SortUnstable RuntimeSchedTableEntry.byOffset)
    (sortByIdAndOffset : SortUnstable RuntimeSchedTableEntry.byIdAndOffset) (frameSize : Duration)
    (table : List RuntimeSchedTableEntry) : Outcome (Except InternalError RuntimeSchedTable) :=
  let schedTable := { frameSize, table := sortByOffset.sort table, next := 0, datum := .zero }
  (valid schedTable sortByIdAndOffset).map fun valid =>
    if valid then .ok schedTable else .error .invalidRuntimeSchedTable

def names (t : RuntimeSchedTable) (id : InspectorId) : Bool :=
  t.table.any (·.inspectorId = id)

def start (t : RuntimeSchedTable) (now : Duration) : RuntimeSchedTable :=
  { t with datum := now }

def schedNext (t : RuntimeSchedTable) : Outcome (RuntimeSchedTableEntry × RuntimeSchedTable) :=
  -- The entry that `sched_next` returns, and the table afterwards. The access to the table and all
  -- the sums of durations that are formed on the way can panic.
  match t.table[t.next]? with
  | none => .panic
  | some entry =>
    match (t.datum.add entry.offset).bind (·.add entry.duration) with
    | none => .panic
    | some _ =>
      if t.next + 1 ≥ t.table.length then
        match t.datum.add t.frameSize with
        | none => .panic
        | some datum => .next (entry, { t with next := 0, datum })
      else
        .next (entry, { t with next := t.next + 1 })

theorem names_iff {t : RuntimeSchedTable} {id : InspectorId}
    : t.names id = true ↔ ∃ entry ∈ t.table, entry.inspectorId = id := by
  simp [names]

theorem schedNext_cases {t t' : RuntimeSchedTable} {entry : RuntimeSchedTableEntry}
    (h : t.schedNext = .next (entry, t'))
    : t.table[t.next]? = some entry ∧
        (t.table.length ≤ t.next + 1 ∧
            (∃ datum, t.datum.add t.frameSize = some datum ∧ t' = { t with next := 0, datum }) ∨
          t.next + 1 < t.table.length ∧ t' = { t with next := t.next + 1 }) := by
  unfold schedNext at h
  split at h
  . simp at h
  . next e he =>
    split at h
    . simp at h
    . split at h
      . next hwrap =>
        split at h
        . simp at h
        . next datum hdatum =>
          simp only [Outcome.next.injEq, Prod.mk.injEq] at h
          obtain ⟨rfl, rfl⟩ := h
          exact ⟨he, .inl ⟨hwrap, datum, hdatum, rfl⟩⟩
      . next hwrap =>
        simp only [Outcome.next.injEq, Prod.mk.injEq] at h
        obtain ⟨rfl, rfl⟩ := h
        exact ⟨he, .inr ⟨by omega, rfl⟩⟩

theorem schedNext_eq {t t' : RuntimeSchedTable} {entry : RuntimeSchedTableEntry}
    (h : t.schedNext = .next (entry, t'))
    : t.table[t.next]? = some entry :=
  (schedNext_cases h).1

theorem schedNext_spec {t t' : RuntimeSchedTable} {entry : RuntimeSchedTableEntry}
    (h : t.schedNext = .next (entry, t'))
    : entry ∈ t.table ∧ t'.table = t.table := by
  obtain ⟨hentry, hnext⟩ := schedNext_cases h
  refine ⟨List.mem_of_getElem? hentry, ?_⟩
  obtain ⟨_, datum, _, rfl⟩ | ⟨_, rfl⟩ := hnext
  . rfl
  . rfl

end RuntimeSchedTable

end Jrinx
