import Jrinx.Multitask.InspectorStep
import Jrinx.Multitask.TimedCpu

/-!
This module contains the proof of what it takes for the end of a slot to pre-empt the inspector of this
slot. The event is not tied to the inspector, it pre-empts whatever runs when it fires.
-/

namespace Jrinx

open Std

-- The loop is at the slot of an inspector, from the return of `sched_next` on.
inductive RuntimePc.InSlot (id : InspectorId) : RuntimePc → Prop where
  | setCurrent : InSlot id (.setCurrent .table id)
  | visit (p : InspectorPc) : InSlot id (.visit .table id p)
  | clearCurrent : InSlot id (.clearCurrent .table id)

-- The inspector has a current executor, `set_current(None)` is still to come.
def InspectorPc.busy (pc : InspectorPc) : Bool :=
  match pc with
  | .switchTo _ | .executing _ _ | .clearCurrent _ => true
  | _ => false

def RuntimePc.busy (pc : RuntimePc) : Bool :=
  match pc with
  | .visit _ _ p => p.busy
  | _ => false

def RuntimePc.visitsSlot (pc : RuntimePc) (id : InspectorId) : Bool :=
  match pc with
  | .visit .table id' _ => id' = id
  | _ => false

def RuntimePc.leavesSlot (pc : RuntimePc) : Bool :=
  match pc with
  | .clearCurrent .table _ => true
  | _ => false

theorem Jump.not_inSlot {rt : Runtime} {pc pc' : RuntimePc} {id : InspectorId} (h : Jump rt pc pc')
    : ¬ pc.InSlot id := by
  intro hslot
  cases h <;> cases hslot

namespace Cpu

variable {c c' : Cpu}

theorem inSlot_step {a : CpuAction} {id : InspectorId} (h : c.pc.InSlot id) (hstep : c.step a = .next c')
    : c'.pc.InSlot id ∨ a = .run ∧ c.pc = .clearCurrent .table id := by
  cases Cpu.loopStep hstep with
  | inner ha hrt hpc => exact .inl (hpc ▸ h)
  | visit hrt hpc hpc' =>
    rw [hpc] at h
    cases h
    rw [hpc']
    exact .inl (.visit _)
  | visitEnd hrt hpc hpc' =>
    rw [hpc] at h
    cases h
    rw [hpc']
    exact .inl .clearCurrent
  | jump hrt hjump => exact absurd h hjump.not_inSlot
  | enter hrt hpc hpc' =>
    rw [hpc] at h
    cases h
    rw [hpc']
    exact .inl (.visit _)
  | exitTable hrt hpc hpc' =>
    rw [hpc] at h
    cases h
    exact .inr ⟨rfl, hpc⟩
  | opRegister hmem hrt hpc | opUnregister hmem hrt hpc | opEnact htable hrt hpc
  | opRevoke htable hrt hpc => exact .inl (hpc ▸ h)
  | wake hrt hpc hpc' | stayAwake hrt hpc hpc' | endpoint hrt hpc hpc' | exitQueue hrt hpc hpc' =>
    rw [hpc] at h
    cases h
  | popFront hqueue hrt hpc hpc' | unregister hqueue hrt hpc hpc' | pushBack hqueue hrt hpc hpc'
  | tableStart hqueue hrt hpc hpc' | tableNext hqueue hnext hrt hpc hpc' =>
    rw [hpc] at h
    cases h

/--
The inspector of a slot is not idle while it has a current executor.
-/
def BusyInSlot (c : Cpu) : Prop :=
  ∀ id p, c.pc = .visit .table id p → p.busy = true →
    ∃ is, c.rt.registry[id]? = some is ∧ is.status ≠ .idle

theorem mem_registry_of_busy {a : CpuAction} {id : InspectorId} {p : InspectorPc}
    (hcur : c.VisitsCurrent) (hbusy : c.BusyInSlot)
    (hallowed : ∀ id', a = .op (.unregister id') → c.pc.visitsSlot id' = false)
    (hstep : c.step a = .next c') (hpc' : c'.pc = .visit .table id p) (hp : p.busy = true)
    : id ∈ c'.rt.registry := by
  have hold (hsame : c'.pc = c.pc) : id ∈ c.rt.registry := by
    obtain ⟨is, his, _⟩ := hbusy id p (by rw [← hsame, hpc']) hp
    exact ExtTreeMap.mem_iff_isSome_getElem?.mpr (by simp [his])
  cases Cpu.loopStep hstep with
  | inner ha hrt hpc => exact (hrt.registry id).mpr (hold hpc)
  | visit hrt hpc hto =>
    rw [hpc'] at hto
    simp only [RuntimePc.visit.injEq] at hto
    obtain ⟨rfl, rfl, rfl⟩ := hto
    apply (hrt.registry id).mpr
    by_cases hsame : c'.pc = c.pc
    . exact hold hsame
    . exact mem_registry_of_visit hcur hpc hstep hsame
  | jump hrt hjump =>
    rw [hpc'] at hjump
    exact absurd hjump Jump.ne_visit
  | enter hrt hpc hto =>
    rw [hpc'] at hto
    simp only [RuntimePc.visit.injEq] at hto
    obtain ⟨_, _, rfl⟩ := hto
    simp [InspectorPc.busy] at hp
  | opRegister hmem hrt hpc =>
    rw [hrt]
    simp [hold hpc]
  | opUnregister hmem hrt hpc =>
    have hne := hallowed _ rfl
    rw [← hpc, hpc'] at hne
    simp only [RuntimePc.visitsSlot, decide_eq_false_iff_not] at hne
    rw [hrt]
    simp [hold hpc, Ne.symm hne]
  | opEnact htable hrt hpc | opRevoke htable hrt hpc =>
    rw [hrt]
    exact hold hpc
  | _ => simp_all

theorem mode_eq_of_visit {a : CpuAction} {mode mode' : VisitMode} {id id' : InspectorId}
    {p p' : InspectorPc} (hpc : c.pc = .visit mode id p) (hstep : c.step a = .next c')
    (hpc' : c'.pc = .visit mode' id' p')
    : mode = mode' := by
  cases Cpu.loopStep hstep with
  | inner ha hrt hsame =>
    rw [hsame, hpc] at hpc'
    exact (RuntimePc.visit.inj hpc').1
  | visit hrt hfrom hto =>
    rw [hpc] at hfrom
    rw [hpc'] at hto
    rw [(RuntimePc.visit.inj hfrom).1, (RuntimePc.visit.inj hto).1]
  | jump hrt hjump =>
    rw [hpc'] at hjump
    exact absurd hjump Jump.ne_visit
  | _ => simp_all

theorem pc_eq_of_inspectorPc {pc : RuntimePc} {id : InspectorId} {p : InspectorPc}
    (h : pc.inspectorPc id = some p)
    : ∃ mode, pc = .visit mode id p := by
  unfold RuntimePc.inspectorPc at h
  split at h
  next mode id' p' =>
    split at h
    next hid =>
      obtain rfl := hid
      obtain rfl := Option.some.inj h
      exact ⟨mode, rfl⟩
    next => simp at h
  next => simp at h

theorem BusyInSlot.step {a : CpuAction} (hbusy : c.BusyInSlot) (hcur : c.VisitsCurrent)
    (hallowed : ∀ id', a = .op (.unregister id') → c.pc.visitsSlot id' = false)
    (hstep : c.step a = .next c')
    : c'.BusyInSlot := by
  intro id p hpc' hp
  have hmem := mem_registry_of_busy hcur hbusy hallowed hstep hpc' hp
  obtain ⟨is', his'⟩ := Option.isSome_iff_exists.mp (ExtTreeMap.mem_iff_isSome_getElem?.mp hmem)
  refine ⟨is', his', ?_⟩
  -- the inspector before the step, if the loop is already at the same place of the visit
  have hbefore (is : Inspector) {q : InspectorPc} (his : c.rt.registry[id]? = some is)
      (hq : c.pc.inspectorPc id = some q) (hqbusy : q.busy = true)
      : is.status ≠ .idle := by
    obtain ⟨mode, hpc⟩ := pc_eq_of_inspectorPc hq
    obtain rfl := mode_eq_of_visit hpc hstep hpc'
    obtain ⟨is₀, his₀, hstatus⟩ := hbusy id q hpc hqbusy
    rw [his] at his₀
    obtain rfl := Option.some.inj his₀
    exact hstatus
  have hat : c'.pc.inspectorPc id = some p := by
    simp [hpc', RuntimePc.inspectorPc]
  rcases inspectorStep hcur hstep his' with ⟨hnot, _, _, rfl, _⟩ | ⟨is, his, hinspector⟩
  . simp only [Cpu.step, Outcome.next.injEq] at hstep
    subst hstep
    obtain ⟨is, his, _⟩ := hbusy id p hpc' hp
    exact absurd (ExtTreeMap.mem_iff_isSome_getElem?.mpr (by simp [his])) hnot
  . rw [hat] at hinspector
    generalize hfrom : c.pc.inspectorPc id = q at hinspector
    cases hinspector with
    | same hinert => exact hbefore _ his hfrom hp
    | executor hinert hget hsame => exact hbefore is his hfrom hp
    | opRegister hnew => exact hbefore is his hfrom hp
    | opUnregister hx => exact hbefore is his hfrom hp
    | opMarkPending hstatus => simp
    | setCurrent => simp
    | switchTo hcurrent hget => exact hbefore _ his hfrom rfl
    | yield => exact hbefore _ his hfrom rfl
    | _ => simp [InspectorPc.busy] at hp

end Cpu

namespace TimedCpu

def outdated (s : TimedCpu) : Option TimedEventTracker :=
  match s.events.peekOutdated s.now with
  | .next tracker => tracker
  | _ => none

/--
The end of a slot is handled before the visit of its inspector is over, and while this inspector has a
current executor. Until then the inspector is not unregistered.
-/
def EndsInSlot (s : TimedCpu) (a : TimedCpuAction) : Prop :=
  match a with
  | .cpu .run => s.cpu.pc.leavesSlot = true → ∀ e ∈ s.events.queue, s.slotEnds e.2 = none
  | .cpu (.op (.unregister id)) => s.cpu.pc.visitsSlot id = false
  | .fire => ∀ tracker ∈ s.outdated, s.slotEnds tracker.id ≠ none → s.cpu.pc.busy = true
  | _ => True

/--
What is promised when the end of the slot of an inspector fires: it is the running one and not idle, so
both `unwrap`s succeed, and no other inspector changes.
-/
def Preempts (s : TimedCpu) (id : InspectorId) : Prop :=
  s.cpu.rt.status = .running id ∧
    (∃ is, s.cpu.rt.registry[id]? = some is ∧ is.status ≠ .idle) ∧
      ∃ c, markCurrentPending s.cpu = .next c ∧
        ∀ id', id' ≠ id → c.rt.registry[id']? = s.cpu.rt.registry[id']?

structure SlotInv (s : TimedCpu) : Prop where
  current : s.cpu.VisitsCurrent
  busy : s.cpu.BusyInSlot
  keyed : ∀ (id : TimedEventId) (tracker : TimedEventTracker),
    s.events.registry[id]? = some tracker → tracker.id = id
  old : ∀ e ∈ s.events.queue, e.2.val < s.nextId
  slots : ∀ e ∈ s.events.queue, ∀ id, s.slotEnds e.2 = some id → s.cpu.pc.InSlot id
  locked : s.schedNext ≠ .idle → s.cpu.pc = .tableNext

variable {s s' : TimedCpu}

theorem slotInv_boot (freq : Nat) : (boot freq).SlotInv := by
  constructor
  case current => exact Cpu.visitsCurrent_boot
  case busy =>
    intro id p hpc
    simp [boot, Cpu.boot] at hpc
  case keyed => simp [boot, TimedEventQueue.new]
  case old => simp [boot, TimedEventQueue.new]
  case slots => simp [boot, TimedEventQueue.new]
  case locked => simp [boot]

theorem SlotInv.slotEnds_create (h : s.SlotInv) {time : Duration} {slotEnd : Option InspectorId}
    {e : Duration × TimedEventId} (he : e ∈ (s.create time slotEnd).events.queue) {id : InspectorId}
    (hend : (s.create time slotEnd).slotEnds e.2 = some id)
    : slotEnd = some id ∨ e ∈ s.events.queue ∧ s.slotEnds e.2 = some id := by
  simp only [create, TimedEventQueue.add, List.mem_cons] at he hend
  rcases he with rfl | he
  . exact .inl (by simpa using hend)
  . have hne : e.2 ≠ ⟨s.nextId⟩ := by
      intro heq
      have hlt := h.old e he
      simp [heq] at hlt
    rw [Function.update_of_ne hne] at hend
    exact .inr ⟨he, hend⟩

theorem SlotInv.keyed_create (h : s.SlotInv) (time : Duration) (slotEnd : Option InspectorId)
    (id : TimedEventId) (tracker : TimedEventTracker)
    (hget : (s.create time slotEnd).events.registry[id]? = some tracker)
    : tracker.id = id := by
  simp only [create, TimedEventQueue.add, ExtTreeMap.getElem?_insert] at hget
  split at hget
  next heq =>
    obtain rfl := Option.some.inj hget
    simpa using heq
  next => exact h.keyed id tracker hget

theorem SlotInv.old_create (h : s.SlotInv) (time : Duration) (slotEnd : Option InspectorId)
    {e : Duration × TimedEventId} (he : e ∈ (s.create time slotEnd).events.queue)
    : e.2.val < s.nextId + 1 := by
  simp only [create, TimedEventQueue.add, List.mem_cons] at he
  rcases he with rfl | he
  . exact Nat.lt_succ_self _
  . exact Nat.lt_succ_of_lt (h.old e he)

theorem SlotInv.no_slotEnds (h : s.SlotInv) (hpc : s.cpu.pc = .tableNext)
    : ∀ e ∈ s.events.queue, s.slotEnds e.2 = none := by
  intro e he
  cases hend : s.slotEnds e.2 with
  | none => rfl
  | some id =>
    have hslot := h.slots e he id hend
    rw [hpc] at hslot
    cases hslot

theorem SlotInv.create (h : s.SlotInv) (time : Duration) : (s.create time none).SlotInv where
  current := h.current
  busy := h.busy
  keyed := h.keyed_create time none
  old _ he := h.old_create time none he
  slots e he id hend := by
    rcases h.slotEnds_create he hend with hnone | ⟨hold, hend⟩
    . simp at hnone
    . exact h.slots e hold id hend
  locked := h.locked

theorem SlotInv.remove (h : s.SlotInv) {id : TimedEventId} {events : TimedEventQueue}
    (hremove : s.events.remove id = .ok events) (timer : Duration)
    : { s with events, timer }.SlotInv where
  current := h.current
  busy := h.busy
  keyed _ _ hget := h.keyed _ _ (TimedEventQueue.remove_getElem? hremove hget)
  old e he := h.old e (TimedEventQueue.remove_queue_subset hremove he)
  slots e he := h.slots e (TimedEventQueue.remove_queue_subset hremove he)
  locked := h.locked

theorem SlotInv.setCpu (h : s.SlotInv) {c : Cpu} (hcurrent : c.VisitsCurrent) (hbusy : c.BusyInSlot)
    (hslots : ∀ e ∈ s.events.queue, ∀ id, s.slotEnds e.2 = some id → c.pc.InSlot id)
    (hlocked : s.schedNext ≠ .idle → c.pc = .tableNext)
    : { s with cpu := c }.SlotInv where
  current := hcurrent
  busy := hbusy
  keyed := h.keyed
  old := h.old
  slots := hslots
  locked := hlocked

theorem unregister_of_endsInSlot {a : CpuAction} (hallowed : s.EndsInSlot (.cpu a))
    : ∀ id, a = .op (.unregister id) → s.cpu.pc.visitsSlot id = false := by
  rintro id rfl
  exact hallowed

theorem SlotInv.cpu (h : s.SlotInv) {a : CpuAction} {c : Cpu} (hallowed : s.EndsInSlot (.cpu a))
    (henabled : s.cpuEnabled a = true) (hstep : s.cpu.step a = .next c)
    : { s with cpu := c }.SlotInv := by
  apply h.setCpu (h.current.step hstep)
    (h.busy.step h.current (unregister_of_endsInSlot hallowed) hstep)
  . intro e he id hend
    rcases Cpu.inSlot_step (h.slots e he id hend) hstep with hslot | ⟨rfl, hpc⟩
    . exact hslot
    . have hnone := hallowed (by simp [hpc, RuntimePc.leavesSlot]) e he
      rw [hnone] at hend
      simp at hend
  . intro hlocked
    rw [(step_of_locked hlocked henabled hstep).1]
    exact h.locked hlocked

theorem pc_of_schedNext {t : RuntimeSchedTable} {entry : RuntimeSchedTableEntry} {start : Duration}
    {c : Cpu} (hpc : s.cpu.pc = .tableNext) (hslot : s.nextSlot = some (t, entry, start))
    (hstep : s.cpu.step .run = .next c)
    : c.pc = .setCurrent .table entry.inspectorId := by
  simp only [nextSlot, Option.bind_eq_some_iff, Option.map_eq_some_iff, Prod.mk.injEq] at hslot
  obtain ⟨t', htable, entry', hentry, start', hadd, rfl, rfl, rfl⟩ := hslot
  simp only [Cpu.step, Cpu.runStep, hpc, Runtime.schedTableNext, htable] at hstep
  cases hnext : t'.schedNext with
  | next result =>
    obtain ⟨found, t''⟩ := result
    have hfound := (RuntimeSchedTable.schedNext_eq hnext).symm.trans hentry
    simp only [hnext, Outcome.map_next, Outcome.next.injEq] at hstep
    rw [← hstep, Option.some.inj hfound]
  | panic => simp [hnext] at hstep
  | disabled => simp [hnext] at hstep

theorem SlotInv.finish (h : s.SlotInv) {t : RuntimeSchedTable} {entry : RuntimeSchedTableEntry}
    {start stop : Duration} {c : Cpu} (hready : s.schedNext = .ready)
    (hslot : s.nextSlot = some (t, entry, start)) (hstep : s.cpu.step .run = .next c)
    : SlotInv
        {
          s.create stop (some entry.inspectorId) with
          cpu := c
          schedNext := .idle
          slot := some (t.datum, entry)
        } := by
  have hpc := h.locked (by simp [hready])
  constructor
  case current => exact h.current.step hstep
  case busy => exact h.busy.step h.current (by simp) hstep
  case keyed => exact h.keyed_create stop (some entry.inspectorId)
  case old => exact fun _ he => h.old_create stop (some entry.inspectorId) he
  case slots =>
    intro e he id hend
    rcases h.slotEnds_create he hend with hnew | ⟨hold, hend⟩
    . dsimp only
      rw [pc_of_schedNext hpc hslot hstep, Option.some.inj hnew]
      exact .setCurrent
    . rw [h.no_slotEnds hpc e hold] at hend
      simp at hend
  case locked => simp

theorem markPending_status {is is' : Inspector} (h : is.markPending = .ok is') : is'.status ≠ .idle := by
  unfold Inspector.markPending at h
  split at h
  next => simp at h
  next =>
    simp only [Except.ok.injEq] at h
    simp [← h]
  next hstatus =>
    simp only [Except.ok.injEq] at h
    simp [← h, hstatus]

theorem markCurrentPending_eq_next {c c' : Cpu} (h : markCurrentPending c = .next c')
    : ∃ id is is', c.rt.status = .running id ∧ c.rt.registry[id]? = some is ∧ is.markPending = .ok is' ∧
        c' = { c with rt := { c.rt with registry := c.rt.registry.insert id is' } } := by
  obtain ⟨⟨result, rt⟩, hok, h⟩ := Outcome.unwrap_eq_next h
  obtain ⟨is', hresult, h⟩ := Outcome.unwrap_eq_next h
  obtain ⟨id, is, hstatus, hget, hmark, hrt⟩ := Runtime.withCurrentInspector_eq_ok hok
  simp only at hmark hresult hrt h
  rw [hmark] at hresult
  rw [hrt, hresult, Outcome.next.injEq] at h
  exact ⟨id, is, is', hstatus, hget, hresult, h.symm⟩

theorem busyInSlot_of_markCurrentPending {c c' : Cpu} (hcur : c.VisitsCurrent)
    (h : markCurrentPending c = .next c')
    : c'.pc = c.pc ∧ c'.VisitsCurrent ∧ c'.BusyInSlot := by
  obtain ⟨id, is, is', hstatus, hget, hmark, rfl⟩ := markCurrentPending_eq_next h
  refine ⟨rfl, hcur, ?_⟩
  intro id' p hpc hp
  have hrunning := hcur _ _ _ hpc
  rw [hstatus] at hrunning
  obtain rfl := RuntimeStatus.running.inj hrunning
  refine ⟨is', by simp, ?_⟩
  exact markPending_status hmark

theorem SlotInv.slotEnd (h : s.SlotInv) {id : TimedEventId} {events : TimedEventQueue} {c c' : Cpu}
    (hpc : s.cpu.pc.interruptible = true) (hremove : s.events.remove id = .ok events)
    (hmark : markCurrentPending s.cpu = .next c) (hyield : c.yield = .next c')
    : { s.removed events with cpu := c' }.SlotInv := by
  obtain ⟨hsame, hcurrent, hbusy⟩ := busyInSlot_of_markCurrentPending h.current hmark
  have hstep : c.step .yield = .next c' := hyield
  apply (h.remove hremove events.deadline).setCpu (hcurrent.step hstep)
    (hbusy.step hcurrent (by simp) hstep)
  . intro e he id hend
    have hslot := h.slots e (TimedEventQueue.remove_queue_subset hremove he) id hend
    rw [← hsame] at hslot
    exact (Cpu.inSlot_step hslot hstep).resolve_right (by simp)
  . intro hlocked
    have hnext := h.locked hlocked
    simp [hnext, RuntimePc.interruptible] at hpc

theorem SlotInv.step {a : TimedCpuAction} (h : s.SlotInv) (hallowed : s.EndsInSlot a)
    (hstep : s.step a = .next s')
    : s'.SlotInv := by
  cases timedStep hstep with
  | cpu henabled hcpu => exact h.cpu hallowed henabled hcpu
  | wait hpc hidle hslot hlt =>
    obtain ⟨hcurrent, hbusy, hkeyed, hold, hslots, _⟩ := h.create _
    exact ⟨hcurrent, hbusy, hkeyed, hold, hslots, fun _ => hpc⟩
  | noWait hpc hidle hslot hle => exact ⟨h.current, h.busy, h.keyed, h.old, h.slots, fun _ => hpc⟩
  | wake hwaiting hwakes =>
    exact ⟨h.current, h.busy, h.keyed, h.old, h.slots, fun _ => h.locked (by simp [hwaiting])⟩
  | finish hready hslot hstop hcpu => exact h.finish hready hslot hcpu
  | slotEnd hpc hpeek hremove hend hmark hyield => exact h.slotEnd hpc hremove hmark hyield
  | remove htimer hremove => exact h.remove hremove _
  | same => exact h
  | silence hpc => exact ⟨h.current, h.busy, h.keyed, h.old, h.slots, h.locked⟩
  | create hidle => exact h.create _
  | createElsewhere =>
    exact ⟨h.current, h.busy, h.keyed, fun e he => Nat.lt_succ_of_lt (h.old e he), h.slots, h.locked⟩
  | tick hle => exact ⟨h.current, h.busy, h.keyed, h.old, h.slots, h.locked⟩
  | external pending => exact ⟨h.current, h.busy, h.keyed, h.old, h.slots, h.locked⟩

theorem markPending_of_busy {is : Inspector} (h : is.status ≠ .idle) : ∃ is', is.markPending = .ok is' := by
  unfold Inspector.markPending
  split
  next hidle => exact absurd hidle h
  next => exact ⟨_, rfl⟩
  next => exact ⟨_, rfl⟩

theorem preempts_of_busy {id : InspectorId} {is : Inspector} (hstatus : s.cpu.rt.status = .running id)
    (hget : s.cpu.rt.registry[id]? = some is) (hbusy : is.status ≠ .idle)
    : s.Preempts id := by
  obtain ⟨is', hmark⟩ := markPending_of_busy hbusy
  refine ⟨hstatus, ⟨is, hget, hbusy⟩, ?_⟩
  refine ⟨{ s.cpu with rt := { s.cpu.rt with registry := s.cpu.rt.registry.insert id is' } }, ?_, ?_⟩
  . simp [markCurrentPending, Runtime.withCurrentInspector, hstatus, Runtime.withInspector_of_some hget,
      hmark, Except.toOption]
  . intro id' hne
    simp [ExtTreeMap.getElem?_insert, Ne.symm hne]

theorem outdated_eq_some {tracker : TimedEventTracker} (h : s.outdated = some tracker)
    : ∃ e ∈ s.events.queue, s.events.registry[e.2]? = some tracker := by
  unfold outdated at h
  split at h
  next found hfound =>
    subst h
    obtain ⟨peeked, hpeek, hfilter⟩ := Outcome.map_eq_next hfound
    obtain ⟨rfl, _⟩ := Option.filter_eq_some_iff.mp hfilter
    exact TimedEventQueue.peek_eq_some hpeek
  next => simp at h

theorem pc_of_inSlot {pc : RuntimePc} {id : InspectorId} (hslot : pc.InSlot id) (hbusy : pc.busy = true)
    : ∃ p, pc = .visit .table id p ∧ p.busy = true := by
  cases hslot with
  | setCurrent => simp [RuntimePc.busy] at hbusy
  | visit p => exact ⟨p, rfl, hbusy⟩
  | clearCurrent => simp [RuntimePc.busy] at hbusy

/--
The end of a slot pre-empts the inspector of this slot, as long as the inspector does not run out of
executors before.
-/
theorem preempts_of_run {freq : Nat} {as : List TimedCpuAction}
    (hrun : Run step EndsInSlot (boot freq) as s) {tracker : TimedEventTracker} {id : InspectorId}
    (hdue : s.outdated = some tracker) (hend : s.slotEnds tracker.id = some id) (hfire : s.EndsInSlot .fire)
    : s.Preempts id := by
  have hinv : s.SlotInv := by
    apply hrun.invariant SlotInv (slotInv_boot freq)
    intro s s' a h hallowed hstep
    exact h.step hallowed hstep
  obtain ⟨e, he, hget⟩ := outdated_eq_some hdue
  have hkey := hinv.keyed _ _ hget
  have hslot := hinv.slots e he id (hkey ▸ hend)
  have hbusy := hfire tracker hdue (by simp [hend])
  obtain ⟨p, hpc, hp⟩ := pc_of_inSlot hslot hbusy
  obtain ⟨is, his, hstatus⟩ := hinv.busy id p hpc hp
  exact preempts_of_busy (hinv.current _ _ _ hpc) his hstatus

instance (s : TimedCpu) (a : TimedCpuAction) : Decidable (s.EndsInSlot a) := by
  induction a using TimedCpuAction.casesOn with
  | cpu a =>
    induction a using CpuAction.casesOn with
    | run => exact inferInstanceAs (Decidable (s.cpu.pc.leavesSlot = true → _))
    | op op =>
      induction op using RuntimeOp.casesOn with
      | unregister id => exact inferInstanceAs (Decidable (s.cpu.pc.visitsSlot id = false))
      | _ => exact isTrue trivial
    | _ => exact isTrue trivial
  | fire => exact inferInstanceAs (Decidable (∀ tracker ∈ s.outdated, _))
  | _ => exact isTrue trivial

def firstHalf : RuntimeSchedTable where
  frameSize := .fromNanos 4
  table := [⟨⟨1⟩, .zero, .fromNanos 4, .fromNanos 2⟩]
  next := 0
  datum := .zero

def untilDispatch : List TimedCpuAction :=
  [
    .cpu (.op (.register ⟨1⟩ (.new ⟨1⟩ ⟨0⟩ ⟨⟨1⟩, ⟨0⟩⟩) [])), .cpu (.op (.enactSchedTable firstHalf)),
    .cpu .run, .cpu (.startTable .zero), .beginNext, .finishNext, .cpu .run, .cpu .run, .cpu .run, .cpu .run
  ]

theorem preempts_secondTick
    : ∃ s, Run step EndsInSlot (boot (10 ^ 9)) (untilDispatch ++ [.tick, .tick]) s ∧
        (∃ tracker, s.outdated = some tracker ∧ s.slotEnds tracker.id = some ⟨1⟩) ∧ s.Preempts ⟨1⟩ := by
  obtain ⟨s, hrun, hend⟩ := exists_run_of_exec (checked step EndsInSlot) (boot (10 ^ 9))
    (untilDispatch ++ [.tick, .tick])
    (fun s => s.outdated.any (fun tracker => s.slotEnds tracker.id = some ⟨1⟩) && decide (s.EndsInSlot .fire))
    (by decide +kernel)
  simp only [Bool.and_eq_true, Option.any_eq_true, decide_eq_true_eq] at hend
  obtain ⟨⟨tracker, hdue, hend⟩, hfire⟩ := hend
  exact ⟨s, hrun.of_checked, ⟨tracker, hdue, hend⟩, preempts_of_run hrun.of_checked hdue hend hfire⟩

-- The only executor of the inspector finishes at once. The end of this slot then ends the wait for the
-- next slot.
def untilNextSlot : List TimedCpuAction :=
  untilDispatch ++
    [
      .cpu (.execute .launch), .cpu (.execute .dequeue), .cpu (.execute .ready), .cpu (.execute .dequeue),
      .cpu (.execute .finish), .cpu .yield, .cpu .run, .cpu .run, .cpu .run, .cpu .run, .cpu .run, .cpu .run,
      .beginNext, .tick, .tick, .wake, .finishNext, .cpu .run
    ]

theorem preempts_finishedEarly_false
    : ¬ ∀ as s, Run step EnactsAccepted (boot (10 ^ 9)) as s → s.cpu.pc.interruptible = true →
        ∀ tracker id, s.outdated = some tracker → s.slotEnds tracker.id = some id → s.Preempts id := by
  intro hall
  obtain ⟨s, hrun, hidle⟩ := exists_run_of_exec step (boot (10 ^ 9)) untilNextSlot
    (fun s => s.cpu.pc.interruptible &&
      s.outdated.any (fun tracker => s.slotEnds tracker.id = some ⟨1⟩) &&
        s.cpu.rt.registry[(⟨1⟩ : InspectorId)]?.all (fun is => is.status = .idle))
    (by decide +kernel)
  have haccepted : ∀ a ∈ untilNextSlot, ∀ s, EnactsAccepted s a := by
    simp only [untilNextSlot, untilDispatch, List.cons_append, List.nil_append, List.forall_mem_cons,
      List.not_mem_nil, false_implies, implies_true, and_true, EnactsAccepted, true_and]
    intro _
    exact ⟨.insertionSort _, .insertionSort _, .fromNanos 4, firstHalf.table, by decide, rfl⟩
  simp only [Bool.and_eq_true, Option.any_eq_true, decide_eq_true_eq, Option.all_eq_true] at hidle
  obtain ⟨⟨hpc, tracker, hdue, hend⟩, hstatus⟩ := hidle
  obtain ⟨_, ⟨is, hget, hbusy⟩, _⟩ := hall _ s (hrun.restrict haccepted) hpc tracker ⟨1⟩ hdue hend
  exact hbusy (hstatus is hget)

end TimedCpu

end Jrinx
