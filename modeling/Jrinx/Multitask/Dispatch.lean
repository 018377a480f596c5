import Jrinx.Multitask.InspectorStep
import Jrinx.Multitask.TableLoss

/-!
This module contains the strict priority dispatch of `Inspector::run`. Next to every inspector there
is a log of the executors that were put into its queue and of those that were taken out for dispatch.
-/

namespace Jrinx

open Std

namespace Dispatch

def dispatched : Option InspectorPc → List ExecutorId
  | some (.setCurrent x) | some (.switchTo x) | some (.executing x _) | some (.clearCurrent x) => [x]
  | some (.testFinished x) | some (.unregister x) | some (.enqueue x) => [x]
  | _ => []

structure Log where
  enqueued : List (ExecutorPriority × ExecutorId)
  dispatched : List (ExecutorPriority × ExecutorId)
  -- The inspector was marked as pending since the last executor was set to be the current one.
  marked : Bool

namespace Log

def add (l : List (ExecutorPriority × ExecutorId)) (ex : Executor)
    : List (ExecutorPriority × ExecutorId) :=
  if ex.id ∈ l.map Prod.snd then l else l ++ [(ex.priority, ex.id)]

def new (rootExecutor : Executor) (others : List Executor) : Log where
  enqueued := others.foldl add (add [] rootExecutor)
  dispatched := []
  marked := false

def record (log : Log) (id : InspectorId) (is : Inspector) (pc : Option InspectorPc) (a : CpuAction)
    : Log :=
  match a with
  | .op (.registerExecutor id' ex) =>
    if id' = id ∧ ex.id ∉ is.registry then
      { log with enqueued := log.enqueued ++ [(ex.priority, ex.id)] }
    else
      log
  | .op (.markPending id') =>
    if id' = id ∧ is.status ≠ .idle then { log with marked := true } else log
  | .run =>
    match pc with
    | some .dequeue => { log with dispatched := log.dispatched ++ is.queue.dequeue.1.toList }
    | some (.setCurrent _) => { log with marked := false }
    | some (.enqueue x) =>
      { log with enqueued := log.enqueued ++ (is.registry[x]?.map fun ex => (ex.priority, x)).toList }
    | _ => log
  | _ => log

end Log

structure State where
  cpu : Cpu
  log : InspectorId → Log

namespace State

def boot : State where
  cpu := .boot
  log _ := ⟨[], [], false⟩

def recordAll (s : State) (a : CpuAction) (id : InspectorId) : Log :=
  match s.cpu.rt.registry[id]? with
  | some is => (s.log id).record id is (s.cpu.pc.inspectorPc id) a
  | none =>
    match a with
    | .op (.register id' rootExecutor others) =>
      if id' = id then .new rootExecutor others else s.log id
    | _ => s.log id

def step (s : State) (a : CpuAction) : Outcome State :=
  (s.cpu.step a).map fun cpu => { cpu, log := s.recordAll a }

end State

structure Queued (is : Inspector) (out : List ExecutorId) (l : List (ExecutorPriority × ExecutorId))
    : Prop where
  refines : is.queue.Refines l
  priority : ∀ e ∈ l, ∀ ex, is.registry[e.2]? = some ex → ex.priority = e.1
  nodup : (l.map Prod.snd ++ out).Nodup
  mem_iff : ∀ x, x ∈ is.registry ↔ x ∈ l.map Prod.snd ++ out
  id_eq : ∀ x (ex : Executor), is.registry[x]? = some ex → ex.id = x

def Log.Fifo (log : Log) (l : List (ExecutorPriority × ExecutorId)) : Prop :=
  ∀ p, log.enqueued.filter (FastPriorityQueue.key · = p) =
    log.dispatched.filter (FastPriorityQueue.key · = p) ++ l.filter (FastPriorityQueue.key · = p)

def Current (is : Inspector) : Option InspectorPc → Prop
  | some (.switchTo x) => is.status = .running x ∨ is.status = .pending x
  | some (.executing x y) => y = x ∧ (is.status = .running x ∨ is.status = .pending x)
  | _ => True

structure Inv (is : Inspector) (pc : Option InspectorPc) (log : Log) : Prop where
  queued : ∃ l, Queued is (dispatched pc) l ∧ log.Fifo l
  current : Current is pc
  marked : ∀ x, is.status = .pending x → log.marked = true

theorem Queued.of_eq {is is' : Inspector} {out : List ExecutorId}
    {l : List (ExecutorPriority × ExecutorId)} (hqueued : Queued is out l)
    (hregistry : is'.registry = is.registry) (hqueue : is'.queue = is.queue)
    : Queued is' out l := by
  constructor
  . rw [hqueue]
    exact hqueued.refines
  . rw [hregistry]
    exact hqueued.priority
  . exact hqueued.nodup
  . rw [hregistry]
    exact hqueued.mem_iff
  . rw [hregistry]
    exact hqueued.id_eq

theorem Queued.register {is : Inspector} {out : List ExecutorId}
    {l : List (ExecutorPriority × ExecutorId)} {ex : Executor} (hqueued : Queued is out l)
    (hnew : ex.id ∉ is.registry)
    : Queued
        {
          is with
          registry := is.registry.insert ex.id ex
          queue := is.queue.enqueue ex.priority ex.id
        }
        out (l ++ [(ex.priority, ex.id)]) := by
  have hmem := hqueued.mem_iff
  constructor
  . exact hqueued.refines.enqueue _ _
  . intro e he ex' hget
    simp only [ExtTreeMap.getElem?_insert] at hget
    have hold := hqueued.priority e
    have hreg := (hmem e.2).mpr
    grind
  . have hnodup := hqueued.nodup
    rw [hmem] at hnew
    grind
  . intro x
    simp only [ExtTreeMap.mem_insert, hmem]
    grind
  . intro x ex' hget
    have hold := hqueued.id_eq x ex'
    simp only [ExtTreeMap.getElem?_insert] at hget
    grind

theorem Queued.executor {is : Inspector} {out : List ExecutorId}
    {l : List (ExecutorPriority × ExecutorId)} {x : ExecutorId} {ex ex' : Executor}
    (hqueued : Queued is out l) (hget : is.registry[x]? = some ex)
    (hsame : ex'.id = ex.id ∧ ex'.priority = ex.priority)
    : Queued { is with registry := is.registry.insert x ex' } out l := by
  constructor
  . exact hqueued.refines
  . intro e he ex'' hget'
    have hold := hqueued.priority e he
    simp only [ExtTreeMap.getElem?_insert] at hget'
    grind
  . exact hqueued.nodup
  . intro y
    rw [← hqueued.mem_iff]
    grind
  . intro y ex'' hget'
    have hold := hqueued.id_eq y
    simp only [ExtTreeMap.getElem?_insert] at hget'
    grind

theorem Queued.dequeue {is : Inspector} {l : List (ExecutorPriority × ExecutorId)}
    {e : ExecutorPriority × ExecutorId} (hqueued : Queued is [] l)
    (hdequeue : is.queue.dequeue.1 = some e)
    : ∃ before after, l = before ++ e :: after ∧
        StableQueue.IsNext FastPriorityQueue.key before e after ∧
        Queued { is with queue := is.queue.dequeue.2 } [e.2] (before ++ after) := by
  rcases hqueued.refines.dequeue with ⟨_, hnone⟩ | ⟨e', l', hl, hsome, hrefines⟩
  . simp [hnone] at hdequeue
  . rw [hsome, Option.some.injEq] at hdequeue
    subst hdequeue
    obtain ⟨before, after, rfl, rfl, hnext⟩ := StableQueue.dequeue_eq_some_iff.mp hl
    refine ⟨before, after, rfl, hnext, ?_⟩
    have hnodup := hqueued.nodup
    constructor
    . exact hrefines
    . intro e'' he''
      exact hqueued.priority e'' (by grind)
    . grind
    . intro x
      rw [hqueued.mem_iff]
      grind
    . exact hqueued.id_eq

theorem Queued.drained {is : Inspector} {l : List (ExecutorPriority × ExecutorId)}
    (hqueued : Queued is [] l) (hdequeue : is.queue.dequeue.1 = none)
    : l = [] ∧ is.queue.dequeue.2 = is.queue ∧ is.isEmpty = true := by
  rcases hqueued.refines.dequeue with ⟨hnil, hnone⟩ | ⟨e, l', _, hsome, _⟩
  . refine ⟨hnil, by rw [hnone], ?_⟩
    have hmem := hqueued.mem_iff
    simp only [hnil, List.map_nil, List.append_nil, List.not_mem_nil, iff_false] at hmem
    rw [Inspector.isEmpty, ExtTreeMap.isEmpty_iff, ExtTreeMap.eq_empty_iff_forall_not_mem]
    exact hmem
  . simp [hsome] at hdequeue

theorem Queued.unregister {is : Inspector} {l : List (ExecutorPriority × ExecutorId)}
    {x : ExecutorId} (hqueued : Queued is [x] l)
    : Queued { is with registry := is.registry.erase x } [] l := by
  have hnodup := hqueued.nodup
  constructor
  . exact hqueued.refines
  . intro e he ex hget
    simp only [ExtTreeMap.getElem?_erase] at hget
    exact hqueued.priority e he ex (by grind)
  . grind
  . intro y
    simp only [ExtTreeMap.mem_erase, hqueued.mem_iff]
    grind
  . intro y ex hget
    simp only [ExtTreeMap.getElem?_erase] at hget
    exact hqueued.id_eq y ex (by grind)

theorem Queued.enqueue {is : Inspector} {l : List (ExecutorPriority × ExecutorId)} {x : ExecutorId}
    {ex : Executor} (hqueued : Queued is [x] l) (hget : is.registry[x]? = some ex)
    : Queued { is with queue := is.queue.enqueue ex.priority x } [] (l ++ [(ex.priority, x)]) := by
  have hnodup := hqueued.nodup
  constructor
  . exact hqueued.refines.enqueue _ _
  . intro e he ex' hget'
    have hold := hqueued.priority e
    simp only at hget'
    grind
  . grind
  . intro y
    rw [hqueued.mem_iff]
    grind
  . exact hqueued.id_eq

theorem Log.Fifo.dequeue {log : Log} {before after : List (ExecutorPriority × ExecutorId)}
    {e : ExecutorPriority × ExecutorId} (hfifo : log.Fifo (before ++ e :: after))
    (hnext : StableQueue.IsNext FastPriorityQueue.key before e after)
    : Log.Fifo { log with dispatched := log.dispatched ++ [e] } (before ++ after) := by
  intro p
  have hp := hfifo p
  by_cases hkey : FastPriorityQueue.key e = p
  . have hbefore : before.filter (FastPriorityQueue.key · = p) = [] := by
      rw [List.filter_eq_nil_iff]
      intro y hy
      have := hnext.lt_of_mem_before y hy
      simpa [← hkey] using this.ne
    simpa [hbefore, hkey] using hp
  . simpa [hkey] using hp

theorem Log.Fifo.enqueue {log : Log} {l : List (ExecutorPriority × ExecutorId)} (hfifo : log.Fifo l)
    (e : ExecutorPriority × ExecutorId)
    : Log.Fifo { log with enqueued := log.enqueued ++ [e] } (l ++ [e]) := by
  intro p
  simp [hfifo p]

theorem Log.record_inert {log : Log} {id : InspectorId} {is : Inspector} {pc : Option InspectorPc}
    {a : CpuAction} (hinert : is.Inert id pc a)
    : log.record id is pc a = log := by
  unfold Log.record
  split
  . simp only [Inspector.Inert] at hinert
    rw [if_neg]
    rintro ⟨hid, hnew⟩
    exact hnew (hinert hid)
  . simp only [Inspector.Inert] at hinert
    rw [if_neg]
    rintro ⟨hid, hbusy⟩
    exact hbusy (hinert hid)
  . simp only [Inspector.Inert] at hinert
    rw [hinert]
  . rfl

theorem Current.of_status {is is' : Inspector} {pc : Option InspectorPc} (h : Current is pc)
    (hstatus : is'.status = is.status)
    : Current is' pc := by
  unfold Current at h ⊢
  split <;> simp_all

theorem Inv.step {is is' : Inspector} {pc pc' : Option InspectorPc} {log : Log} {id : InspectorId}
    {a : CpuAction} (hinv : Inv is pc log) (hstep : InspectorStep id is pc a is' pc')
    (hallowed : ∀ x, a = .op (.unregisterExecutor id x) → x ∉ is.registry)
    : Inv is' pc' (log.record id is pc a) := by
  obtain ⟨l, hqueued, hfifo⟩ := hinv.queued
  have hcurrent := hinv.current
  have hmarked := hinv.marked
  cases hstep with
  | same hinert => rwa [Log.record_inert hinert]
  | executor hinert hget hsame =>
    rw [Log.record_inert hinert]
    exact ⟨⟨l, hqueued.executor hget hsame, hfifo⟩, hcurrent.of_status rfl, hmarked⟩
  | @opRegister _ ex hnew =>
    simp only [Log.record, hnew, not_false_eq_true, and_self, if_true]
    exact ⟨⟨_, hqueued.register hnew, hfifo.enqueue _⟩, hcurrent.of_status rfl, hmarked⟩
  | opUnregister hmem => exact absurd hmem (hallowed _ rfl)
  | @opMarkPending _ x hstatus =>
    have hbusy : is.status ≠ .idle := by
      rcases hstatus with h | h <;> simp [h]
    simp only [Log.record, hbusy, ne_eq, not_false_eq_true, and_self, if_true]
    refine ⟨⟨l, hqueued.of_eq rfl rfl, hfifo⟩, ?_, fun _ _ => rfl⟩
    unfold Current at hcurrent ⊢
    split <;> grind
  | enter => exact ⟨⟨l, hqueued, hfifo⟩, trivial, hmarked⟩
  | @dequeue e hqueue =>
    obtain ⟨before, after, rfl, hnext, hqueued'⟩ := hqueued.dequeue hqueue
    simp only [Log.record, hqueue, Option.toList_some]
    exact ⟨⟨_, hqueued', hfifo.dequeue hnext⟩, trivial, hmarked⟩
  | drained hqueue =>
    obtain ⟨_, hsame, _⟩ := hqueued.drained hqueue
    simp only [Log.record, hqueue, hsame, Option.toList_none, List.append_nil]
    exact ⟨⟨l, hqueued, hfifo⟩, trivial, hmarked⟩
  | @setCurrent x =>
    exact ⟨⟨l, hqueued.of_eq rfl rfl, hfifo⟩, .inl rfl, by simp⟩
  | @switchTo x y ex hcur hget =>
    have hid := hqueued.id_eq y ex hget
    have hy : y = x := by
      simp only [Current] at hcurrent
      rcases hcurrent with h | h <;> simp_all [Inspector.current]
    refine ⟨⟨l, hqueued, hfifo⟩, ⟨?_, hcurrent⟩, hmarked⟩
    rw [hid, hy]
  | yield => exact ⟨⟨l, hqueued, hfifo⟩, trivial, hmarked⟩
  | clearCurrent =>
    refine ⟨⟨l, hqueued.of_eq (by simp) (by simp), hfifo⟩, trivial, ?_⟩
    intro x hstatus
    exact hmarked x (by simpa using hstatus)
  | finished hget hfinished => exact ⟨⟨l, hqueued, hfifo⟩, trivial, hmarked⟩
  | unfinished hget hrunnable => exact ⟨⟨l, hqueued, hfifo⟩, trivial, hmarked⟩
  | unregister hmem => exact ⟨⟨l, hqueued.unregister, hfifo⟩, trivial, hmarked⟩
  | @enqueue x ex hget =>
    simp only [Log.record, hget, Option.map_some, Option.toList_some]
    exact ⟨⟨_, hqueued.enqueue hget, hfifo.enqueue _⟩, trivial, hmarked⟩
  | switchOut hstatus => exact ⟨⟨l, hqueued, hfifo⟩, trivial, hmarked⟩
  | again hstatus => exact ⟨⟨l, hqueued, hfifo⟩, trivial, hmarked⟩

theorem Queued.tryRegister {is : Inspector} {l : List (ExecutorPriority × ExecutorId)}
    (hqueued : Queued is [] l) (ex : Executor)
    : Queued (is.tryRegister ex) [] (Log.add l ex) := by
  have hmem := hqueued.mem_iff ex.id
  rw [List.append_nil] at hmem
  unfold Inspector.tryRegister Inspector.register Log.add
  by_cases hnew : ex.id ∈ is.registry
  . rw [if_pos hnew, if_pos (hmem.mp hnew)]
    exact hqueued
  . rw [if_neg hnew, if_neg (fun h => hnew (hmem.mpr h))]
    exact hqueued.register hnew

theorem queued_new (id : InspectorId) (rootExecutor : Executor) (others : List Executor)
    : Queued (.new id rootExecutor others) [] (Log.new rootExecutor others).enqueued := by
  have hempty : Queued (.empty id) [] [] := by
    constructor <;> simp [Inspector.empty, FastPriorityQueue.refines_new]
  unfold Inspector.new Log.new
  generalize hroot : (Inspector.empty id).tryRegister rootExecutor = is
  have hqueued := hempty.tryRegister rootExecutor
  rw [hroot] at hqueued
  generalize Log.add [] rootExecutor = l at hqueued ⊢
  clear hroot
  induction others generalizing is l with
  | nil => exact hqueued
  | cons ex others ih => exact ih _ _ (hqueued.tryRegister ex)

theorem inv_new (id : InspectorId) (rootExecutor : Executor) (others : List Executor)
    {pc : Option InspectorPc} (hpc : pc = none ∨ pc = some .dequeue)
    : Inv (.new id rootExecutor others) pc (.new rootExecutor others) := by
  have hout : dispatched pc = [] := by
    rcases hpc with rfl | rfl <;> rfl
  constructor
  . refine ⟨(Log.new rootExecutor others).enqueued, ?_, ?_⟩
    . rw [hout]
      exact queued_new id rootExecutor others
    . intro p
      simp [Log.new]
  . rcases hpc with rfl | rfl <;> trivial
  . simp [Inspector.new_status]

/--
Nobody but the loops takes inspectors or executors out of the registries.
-/
def NoRemoval (c : Cpu) (a : CpuAction) : Prop :=
  match a with
  | .op (.unregister id) => id ∉ c.rt.registry
  | .op (.unregisterExecutor id x) => ∀ is ∈ c.rt.registry[id]?, x ∉ is.registry
  | _ => True

theorem NoRemoval.inspectors {c : Cpu} {a : CpuAction} (h : NoRemoval c a) : TableLoss.NoRemoval c a := by
  unfold TableLoss.NoRemoval
  split
  . exact h
  . trivial

namespace State

structure Inv (s : State) : Prop where
  current : s.cpu.VisitsCurrent
  -- Before its first step a visit from a schedule table has not looked for the inspector yet.
  registered : ∀ mode id p, s.cpu.pc = .visit mode id p → id ∈ s.cpu.rt.registry ∨ p = .dequeue
  inspectors : ∀ id is, s.cpu.rt.registry[id]? = some is →
    Dispatch.Inv is (s.cpu.pc.inspectorPc id) (s.log id)
  queue : TableLoss.Inv s.cpu

theorem inv_boot : Inv boot := by
  constructor
  . exact Cpu.visitsCurrent_boot
  . simp [boot, Cpu.boot]
  . simp [boot, Cpu.boot, Runtime.new]
  . exact TableLoss.inv_boot

end State

theorem registered_step {c c' : Cpu} {a : CpuAction} (hcur : c.VisitsCurrent)
    (hinv : ∀ mode id p, c.pc = .visit mode id p → id ∈ c.rt.registry ∨ p = .dequeue)
    (hallowed : TableLoss.NoRemoval c a) (hstep : c.step a = .next c')
    : ∀ mode id p, c'.pc = .visit mode id p → id ∈ c'.rt.registry ∨ p = .dequeue := by
  intro mode id p hpc'
  cases Cpu.loopStep hstep with
  | inner _ hrt hpc =>
    rw [hrt.registry]
    exact hinv mode id p (by rw [← hpc, hpc'])
  | @visit _ _ _ _ p₁ p₂ hrt hfrom hto =>
    rw [hpc'] at hto
    simp only [RuntimePc.visit.injEq] at hto
    obtain ⟨rfl, rfl, rfl⟩ := hto
    rw [hrt.registry]
    by_cases hne : c'.pc = c.pc
    . exact hinv mode id p (by rw [← hne, hpc'])
    . exact .inl (mem_registry_of_visit hcur hfrom hstep hne)
  | jump _ hjump =>
    rw [hpc'] at hjump
    exact absurd hjump Jump.ne_visit
  | enter _ _ hto =>
    rw [hpc'] at hto
    simp only [RuntimePc.visit.injEq] at hto
    exact .inr hto.2.2
  | opRegister _ hrt hpc =>
    have := hinv mode id p (by rw [← hpc, hpc'])
    rw [hrt]
    grind
  | opUnregister hmem => exact absurd hmem hallowed
  | opEnact _ hrt hpc | opRevoke _ hrt hpc =>
    rw [hrt]
    exact hinv mode id p (by rw [← hpc, hpc'])
  | _ => simp_all

theorem State.Inv.step {s s' : State} {a : CpuAction} (hinv : s.Inv) (hallowed : NoRemoval s.cpu a)
    (hstep : s.step a = .next s')
    : s'.Inv := by
  obtain ⟨c', hcpu, rfl⟩ := Outcome.map_eq_next hstep
  clear hstep
  constructor
  . exact hinv.current.step hcpu
  . exact registered_step hinv.current hinv.registered hallowed.inspectors hcpu
  . intro id is' hget'
    rcases Cpu.inspectorStep hinv.current hcpu hget' with
      ⟨hnew, root, others, rfl, rfl⟩ | ⟨is, hget, hinspector⟩
    . have hnone : s.cpu.rt.registry[id]? = none := by simpa using hnew
      have hlog : s.recordAll (.op (.register id root others)) id = .new root others := by
        simp [State.recordAll, hnone]
      simp only [hlog]
      apply inv_new
      simp only [Cpu.step, Outcome.next.injEq] at hcpu
      subst hcpu
      cases hpc : s.cpu.pc with
      | visit mode id' p =>
        simp only [RuntimePc.inspectorPc]
        split
        . next hid =>
          subst hid
          have := (hinv.registered _ _ _ hpc).resolve_left hnew
          simp [this]
        . exact .inl rfl
      | _ => exact .inl rfl
    . have hlog : s.recordAll a id = (s.log id).record id is (s.cpu.pc.inspectorPc id) a := by
        simp [State.recordAll, hget]
      simp only [hlog]
      apply (hinv.inspectors id is hget).step hinspector
      rintro x rfl
      exact hallowed is hget
  . exact hinv.queue.step hallowed.inspectors hcpu

theorem State.inv_of_run {s : State} {as : List CpuAction}
    (hrun : Run State.step (fun s => NoRemoval s.cpu) State.boot as s)
    : s.Inv :=
  hrun.invariant State.Inv State.inv_boot (fun _ _ _ hinv hallowed hstep => hinv.step hallowed hstep)

theorem withCurrentInspector_of_some {β : Type} {rt : Runtime} {id : InspectorId} {is : Inspector}
    (hstatus : rt.status = .running id) (hget : rt.registry[id]? = some is)
    (f : Inspector → β × Inspector)
    : rt.withCurrentInspector f =
        .ok ((f is).1, { rt with registry := rt.registry.insert id (f is).2 }) := by
  simp only [Runtime.withCurrentInspector, hstatus, Runtime.withInspector_of_some hget]

theorem Inv.getElem?_dispatched {is : Inspector} {pc : Option InspectorPc} {log : Log} {x : ExecutorId}
    (hinv : Inv is pc log) (hx : x ∈ dispatched pc)
    : ∃ ex, is.registry[x]? = some ex := by
  obtain ⟨l, hqueued, _⟩ := hinv.queued
  have hmem : x ∈ is.registry := (hqueued.mem_iff x).mpr (by simp [hx])
  exact SerialId.mem_iff_exists.mp hmem

theorem Current.current_eq {is : Inspector} {x : ExecutorId}
    (h : is.status = .running x ∨ is.status = .pending x)
    : is.current = .ok x := by
  rcases h with h | h <;> simp [Inspector.current, h]

theorem Inv.run_no_panic {c : Cpu} {mode : VisitMode} {id : InspectorId} {p : InspectorPc}
    {is : Inspector} {log : Log} (hinv : Inv is (some p) log) (hpc : c.pc = .visit mode id p)
    (hstatus : c.rt.status = .running id) (hget : c.rt.registry[id]? = some is)
    : c.step .run ≠ .panic := by
  simp only [Cpu.step, Cpu.runStep, hpc]
  cases p with
  | dequeue =>
    simp only [Cpu.inspectorRun, withCurrentInspector_of_some hstatus hget, Outcome.unwrap_ok]
    split <;> simp
  | setCurrent x | clearCurrent x =>
    simp [Cpu.inspectorRun, withCurrentInspector_of_some hstatus hget]
  | switchTo x =>
    obtain ⟨ex, hex⟩ := hinv.getElem?_dispatched (x := x) (by simp [dispatched])
    have hcur := Current.current_eq hinv.current
    simp [Cpu.inspectorRun, Runtime.withCurrentExecutor, withCurrentInspector_of_some hstatus hget, hcur,
      Inspector.withExecutor, hex]
  | executing x y => simp [Cpu.inspectorRun]
  | testFinished x =>
    obtain ⟨ex, hex⟩ := hinv.getElem?_dispatched (x := x) (by simp [dispatched])
    simp only [Cpu.inspectorRun, withCurrentInspector_of_some hstatus hget, Inspector.withExecutor, hex,
      Outcome.unwrap_ok]
    split <;> simp
  | unregister x =>
    obtain ⟨ex, hex⟩ := hinv.getElem?_dispatched (x := x) (by simp [dispatched])
    have hmem : x ∈ is.registry := ExtTreeMap.mem_iff_isSome_getElem?.mpr (by simp [hex])
    simp [Cpu.inspectorRun, withCurrentInspector_of_some hstatus hget, Inspector.unregister, hmem]
  | enqueue x =>
    obtain ⟨ex, hex⟩ := hinv.getElem?_dispatched (x := x) (by simp [dispatched])
    simp [Cpu.inspectorRun, withCurrentInspector_of_some hstatus hget, Inspector.enqueue, hex]
  | testPending x =>
    simp only [Cpu.inspectorRun, withCurrentInspector_of_some hstatus hget, Outcome.unwrap_ok]
    split <;> simp

theorem Inv.yield_no_panic {c : Cpu} {mode : VisitMode} {id : InspectorId} {p : InspectorPc}
    {is : Inspector} {log : Log} (hinv : Inv is (some p) log) (hpc : c.pc = .visit mode id p)
    (hstatus : c.rt.status = .running id) (hget : c.rt.registry[id]? = some is)
    : c.step .yield ≠ .panic := by
  cases p with
  | executing x y =>
    obtain ⟨ex, hex⟩ := hinv.getElem?_dispatched (x := x) (by simp [dispatched])
    have hcur := Current.current_eq hinv.current.2
    simp [Cpu.step, Cpu.yield, hpc, Runtime.withCurrentExecutor,
      withCurrentInspector_of_some hstatus hget, hcur, Inspector.withExecutor, hex]
  | _ => simp [Cpu.step, Cpu.yield, hpc]

structure StrictPriority (s : State) (id : InspectorId) (is : Inspector) : Prop where
  -- The queue and the dispatched executor enumerate the registry.
  enumerates : ∃ l, is.queue.Refines l ∧
    (l.map Prod.snd ++ dispatched (s.cpu.pc.inspectorPc id)).Nodup ∧
    ∀ x, x ∈ is.registry ↔ x ∈ l.map Prod.snd ++ dispatched (s.cpu.pc.inspectorPc id)
  no_panic : s.cpu.pc.inspectorPc id ≠ none → s.cpu.step .run ≠ .panic ∧ s.cpu.step .yield ≠ .panic
  -- The executor that is taken out of the queue has the highest priority of all.
  highest : ∀ c' x, s.cpu.pc.inspectorPc id = some .dequeue → s.cpu.step .run = .next c' →
    c'.pc.inspectorPc id = some (.setCurrent x) →
    ∃ ex, is.registry[x]? = some ex ∧
      ∀ (y : ExecutorId) (ey : Executor), is.registry[y]? = some ey → ey.priority.pri ≤ ex.priority.pri
  -- Among equal priorities, the executors are dispatched in the order in which they were enqueued.
  fifo : ∀ p, (s.log id).dispatched.filter (FastPriorityQueue.key · = p) <+:
    (s.log id).enqueued.filter (FastPriorityQueue.key · = p)
  -- The loop ends on an empty registry or because the inspector was marked as pending.
  ends : ∀ a c', s.cpu.pc.inspectorPc id ≠ none → s.cpu.step a = .next c' →
    c'.pc.inspectorPc id = none → is.isEmpty = true ∨ (s.log id).marked = true

theorem inspectorPc_eq_some {pc : RuntimePc} {id : InspectorId} {p : InspectorPc}
    (h : pc.inspectorPc id = some p)
    : ∃ mode, pc = .visit mode id p := by
  unfold RuntimePc.inspectorPc at h
  split at h
  . split at h
    . next hid =>
      simp only [Option.some.injEq] at h
      subst hid h
      exact ⟨_, rfl⟩
    . simp at h
  . simp at h

theorem eq_run_of_visit_ends {c c' : Cpu} {a : CpuAction} {mode : VisitMode} {id : InspectorId}
    {p : InspectorPc} (hpc : c.pc = .visit mode id p) (hstep : c.step a = .next c')
    (hend : c'.pc.inspectorPc id = none)
    : a = .run := by
  have hne : c'.pc ≠ c.pc := by
    intro hsame
    simp [hsame, hpc, RuntimePc.inspectorPc] at hend
  cases Cpu.loopStep hstep with
  | visitEnd => rfl
  | inner _ _ hsame | opRegister _ _ hsame | opUnregister _ _ hsame | opEnact _ _ hsame
  | opRevoke _ _ hsame => exact absurd hsame hne
  | visit _ hfrom hto =>
    rw [hpc, RuntimePc.visit.injEq] at hfrom
    simp [hto, hfrom, RuntimePc.inspectorPc] at hend
  | jump => rfl
  | _ => simp_all

theorem State.Inv.inspectorRun {s : State} {c' : Cpu} {id : InspectorId} {is : Inspector}
    {p : InspectorPc} (hinv : s.Inv) (hget : s.cpu.rt.registry[id]? = some is)
    (hpc : s.cpu.pc.inspectorPc id = some p) (hstep : s.cpu.step .run = .next c')
    : ∃ is', InspectorStep id is (some p) .run is' (c'.pc.inspectorPc id) := by
  obtain ⟨mode, hvisit⟩ := inspectorPc_eq_some hpc
  have hrun : s.cpu.inspectorRun mode id p = .next c' := by
    simpa only [Cpu.step, Cpu.runStep, hvisit] using hstep
  obtain ⟨is₀, is', p', his, _, hinspector, hpc'⟩ :=
    Cpu.inspectorStep_inspectorRun (hinv.current _ _ _ hvisit) hrun
  rw [hget, Option.some.injEq] at his
  subst his
  refine ⟨is', ?_⟩
  rcases hpc' with ⟨q, rfl, hpc'⟩ | ⟨rfl, hpc'⟩ <;> simpa [hpc', RuntimePc.inspectorPc] using hinspector

theorem Queued.highest {is : Inspector} {l : List (ExecutorPriority × ExecutorId)}
    {e : ExecutorPriority × ExecutorId} (hqueued : Queued is [] l)
    (hdequeue : is.queue.dequeue.1 = some e)
    : ∃ ex, is.registry[e.2]? = some ex ∧
        ∀ (y : ExecutorId) (ey : Executor), is.registry[y]? = some ey →
          ey.priority.pri ≤ ex.priority.pri := by
  obtain ⟨before, after, rfl, hnext, _⟩ := hqueued.dequeue hdequeue
  have hmem : e.2 ∈ is.registry := (hqueued.mem_iff e.2).mpr (by simp)
  obtain ⟨ex, hex⟩ := SerialId.mem_iff_exists.mp hmem
  refine ⟨ex, hex, ?_⟩
  intro y ey hey
  have hreg : y ∈ is.registry := ExtTreeMap.mem_iff_isSome_getElem?.mpr (by simp [hey])
  rw [hqueued.mem_iff, List.append_nil, List.mem_map] at hreg
  obtain ⟨f, hf, rfl⟩ := hreg
  have hpriority := hqueued.priority f hf ey hey
  rw [hqueued.priority e (by simp) ex hex, hpriority]
  rcases List.mem_append.mp hf with hbefore | hafter
  . exact (hnext.lt_of_mem_before f hbefore).le
  . rcases List.mem_cons.mp hafter with rfl | hafter
    . exact Std.le_refl _
    . exact hnext.le_of_mem_after f hafter

theorem State.Inv.strictPriority {s : State} {id : InspectorId} {is : Inspector} (hinv : s.Inv)
    (hget : s.cpu.rt.registry[id]? = some is)
    : StrictPriority s id is := by
  have hinspector := hinv.inspectors id is hget
  obtain ⟨l, hqueued, hfifo⟩ := hinspector.queued
  constructor
  . exact ⟨l, hqueued.refines, hqueued.nodup, hqueued.mem_iff⟩
  . intro hvisited
    obtain ⟨p, hpc⟩ := Option.ne_none_iff_exists'.mp hvisited
    obtain ⟨mode, hvisit⟩ := inspectorPc_eq_some hpc
    rw [hpc] at hinspector
    have hstatus := hinv.current _ _ _ hvisit
    exact ⟨hinspector.run_no_panic hvisit hstatus hget, hinspector.yield_no_panic hvisit hstatus hget⟩
  . intro c' x hpc hstep hpc'
    obtain ⟨is', hrun⟩ := hinv.inspectorRun hget hpc hstep
    rw [hpc'] at hrun
    rw [hpc] at hqueued
    cases hrun with
    | dequeue hqueue => exact hqueued.highest hqueue
  . intro p
    rw [hfifo p]
    exact List.prefix_append _ _
  . intro a c' hvisited hstep hend
    obtain ⟨p, hpc⟩ := Option.ne_none_iff_exists'.mp hvisited
    obtain ⟨mode, hvisit⟩ := inspectorPc_eq_some hpc
    have ha := eq_run_of_visit_ends hvisit hstep hend
    subst ha
    obtain ⟨is', hrun⟩ := hinv.inspectorRun hget hpc hstep
    rw [hend] at hrun
    rw [hpc] at hqueued
    cases hrun with
    | drained hqueue => exact .inl (hqueued.drained hqueue).2.2
    | switchOut hstatus => exact .inr (hinspector.marked _ hstatus)

/--
`Inspector::run` dispatches by strict priority, whatever the executors do and whenever executors and
inspectors are registered. An inspector that is visited from the run queue is registered.
-/
theorem inspectorRun_strictPriority {s : State} {as : List CpuAction}
    (hrun : Run State.step (fun s => NoRemoval s.cpu) State.boot as s)
    : (∀ id is, s.cpu.rt.registry[id]? = some is → StrictPriority s id is)
        ∧
      (∀ id p, s.cpu.pc = .visit .queue id p → id ∈ s.cpu.rt.registry) := by
  have hinv := State.inv_of_run hrun
  constructor
  . exact fun id is hget => hinv.strictPriority hget
  . intro id p hpc
    apply hinv.queue.registered
    simp [hpc, RuntimePc.held]

instance (c : Cpu) (a : CpuAction) : Decidable (NoRemoval c a) := by
  induction a using CpuAction.casesOn with
  | op op =>
    induction op using RuntimeOp.casesOn with
    | unregister id => exact inferInstanceAs (Decidable (id ∉ c.rt.registry))
    | unregisterExecutor id x =>
      exact inferInstanceAs (Decidable (∀ is ∈ c.rt.registry[id]?, x ∉ is.registry))
    | _ => exact isTrue trivial
  | _ => exact isTrue trivial

def twoExecutors : List CpuAction :=
  -- An inspector with two executors. The second one has the higher priority and is dispatched
  -- first, it registers a third one and yields.
  [.op (.register ⟨1⟩ (.new ⟨1⟩ ⟨0⟩ ⟨⟨1⟩, ⟨0⟩⟩) [.new ⟨2⟩ ⟨5⟩ ⟨⟨2⟩, ⟨0⟩⟩])] ++ List.replicate 7 .run ++
    [.op (.registerExecutor ⟨1⟩ (.new ⟨3⟩ ⟨5⟩ ⟨⟨3⟩, ⟨0⟩⟩)), .yield] ++ List.replicate 4 .run

theorem strictPriority_twoExecutors
    : ∃ s is, Run State.step (fun s => NoRemoval s.cpu) State.boot twoExecutors s ∧
        s.cpu.rt.registry[(⟨1⟩ : InspectorId)]? = some is ∧ s.cpu.pc = .visit .queue ⟨1⟩ .dequeue ∧
        (s.log ⟨1⟩).dispatched = [(⟨5⟩, ⟨2⟩)] ∧
        (s.log ⟨1⟩).enqueued = [(⟨0⟩, ⟨1⟩), (⟨5⟩, ⟨2⟩), (⟨5⟩, ⟨3⟩), (⟨5⟩, ⟨2⟩)] ∧
        StrictPriority s ⟨1⟩ is := by
  obtain ⟨s, hrun, hs⟩ := exists_run_of_exec (checked State.step (fun s => NoRemoval s.cpu)) State.boot
    twoExecutors
    (fun s => s.cpu.rt.registry[(⟨1⟩ : InspectorId)]?.isSome &&
      decide (s.cpu.pc = .visit .queue ⟨1⟩ .dequeue) &&
      decide ((s.log ⟨1⟩).dispatched = [(⟨5⟩, ⟨2⟩)]) &&
      decide ((s.log ⟨1⟩).enqueued = [(⟨0⟩, ⟨1⟩), (⟨5⟩, ⟨2⟩), (⟨5⟩, ⟨3⟩), (⟨5⟩, ⟨2⟩)]))
    (by decide +kernel)
  simp only [Bool.and_eq_true, decide_eq_true_eq, Option.isSome_iff_exists] at hs
  obtain ⟨⟨⟨⟨is, hget⟩, hpc⟩, hdispatched⟩, henqueued⟩ := hs
  have hall := inspectorRun_strictPriority hrun.of_checked
  exact ⟨s, is, hrun.of_checked, hget, hpc, hdispatched, henqueued, hall.1 _ is hget⟩

end Dispatch

end Jrinx
