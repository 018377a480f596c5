import Jrinx.Multitask.RoundRobin

/-!
This module is about the inspectors that a schedule table takes out of the run queue. `enactSchedTable`
removes them from the queue and `revokeSchedTable` does not put them back, so they are only kept if
they got back into the queue in some other way.
-/

namespace Jrinx

open Std

namespace TableLoss

def NoRemoval (c : Cpu) (a : CpuAction) : Prop :=
  match a with
  | .op (.unregister id) => id ∉ c.rt.registry
  | _ => True

/--
A table is revoked only if all the registered inspectors that it names are in the run queue, or are
visited by the round robin.
-/
def RevokesQueued (c : Cpu) (a : CpuAction) : Prop :=
  match a with
  | .op .revokeSchedTable =>
    ∀ table ∈ c.rt.schedTable, ∀ entry ∈ table.table, entry.inspectorId ∈ c.rt.registry →
      entry.inspectorId ∈ c.rt.queue ++ c.pc.held
  | _ => True

structure Inv (c : Cpu) : Prop where
  nodup : (c.rt.queue ++ c.pc.held).Nodup
  registered : ∀ id ∈ c.rt.queue ++ c.pc.held, id ∈ c.rt.registry

theorem inv_boot : Inv Cpu.boot := by
  constructor <;> simp [Cpu.boot, Runtime.new, RuntimePc.held]

theorem Inv.step {c c' : Cpu} {a : CpuAction} (hinv : Inv c) (hallowed : NoRemoval c a)
    (hstep : c.step a = .next c')
    : Inv c' := by
  have hnodup := hinv.nodup
  have hreg := hinv.registered
  cases Cpu.queueStep hstep with
  | same _ hqueue hheld hmem _ =>
    constructor
    . rwa [hqueue, hheld]
    . intro x
      rw [hqueue, hheld, hmem]
      exact hreg x
  | popFront hpc hqueue hheld hmem _ =>
    rw [hpc, hqueue] at hnodup hreg
    simp only [RuntimePc.held] at hnodup hreg
    constructor
    . rw [hheld]
      grind
    . rw [hheld, hmem]
      grind
  | unregister hpc hqueue hheld hmem _ | pushBack hpc hqueue hheld hmem _ =>
    rw [hpc] at hnodup hreg
    simp only [RuntimePc.held] at hnodup hreg
    constructor
    . rw [hheld, hqueue]
      grind
    . rw [hheld, hmem, hqueue]
      grind
  | opRegister hnew hqueue hpc hmem _ =>
    constructor
    . rw [hqueue, hpc]
      grind
    . intro x
      rw [hqueue, hpc, hmem]
      grind
  | opUnregister hmem => exact absurd hmem hallowed
  | opEnact _ hqueue hpc hmem _ =>
    constructor
    . rw [hqueue, hpc]
      grind
    . rw [hqueue, hpc, hmem]
      grind
  | opRevoke _ hqueue hpc hmem _ =>
    constructor
    . rwa [hqueue, hpc]
    . rwa [hqueue, hpc, hmem]

/--
No inspector is lost: it is in the run queue, visited by the round robin, or named by the table.
-/
def NoInspectorLost (c : Cpu) : Prop :=
  ∀ id ∈ c.rt.registry, id ∈ c.rt.queue ++ c.pc.held ∨ c.rt.Named id

theorem NoInspectorLost.step {c c' : Cpu} {a : CpuAction} (hkept : NoInspectorLost c)
    (hallowed : RevokesQueued c a) (hstep : c.step a = .next c')
    : NoInspectorLost c' := by
  intro x hx
  cases Cpu.queueStep hstep with
  | same _ hqueue hheld hmem htable =>
    rw [hqueue, hheld, htable.named]
    exact hkept x ((hmem x).mp hx)
  | popFront hpc hqueue hheld hmem htable =>
    have := hkept x (hmem ▸ hx)
    simp only [hpc, hqueue, RuntimePc.held] at this
    rw [hheld, htable.named]
    grind
  | unregister hpc hqueue hheld hmem htable =>
    rw [hmem, ExtTreeMap.mem_erase] at hx
    have := hkept x hx.2
    simp only [hpc, RuntimePc.held] at this
    rw [hheld, hqueue, htable.named]
    grind
  | pushBack hpc hqueue hheld hmem htable =>
    have := hkept x (hmem ▸ hx)
    simp only [hpc, RuntimePc.held] at this
    rw [hheld, hqueue, htable.named]
    grind
  | opRegister hnew hqueue hpc hmem htable =>
    rw [hqueue, hpc, htable.named]
    have := hkept x
    grind
  | opUnregister _ hqueue hpc hmem htable =>
    rw [hmem, ExtTreeMap.mem_erase] at hx
    rw [hqueue, hpc, htable.named]
    exact hkept x hx.2
  | @opEnact _ schedTable hnone hqueue hpc hmem htable =>
    have hqueued : x ∈ c.rt.queue ++ c.pc.held := by
      rcases hkept x (hmem ▸ hx) with h | ⟨_, hsome, _⟩
      . exact h
      . simp [hnone] at hsome
    rw [hqueue, hpc]
    by_cases hnames : schedTable.names x = true
    . exact .inr ⟨schedTable, htable, hnames⟩
    . left
      grind
  | @opRevoke _ schedTable hsome hqueue hpc hmem htable =>
    left
    rw [hqueue, hpc]
    rcases hkept x (hmem ▸ hx) with h | ⟨_, hsome', hnames⟩
    . exact h
    . rw [hsome'] at hsome
      obtain ⟨entry, hentry, rfl⟩ := RuntimeSchedTable.names_iff.mp hnames
      exact hallowed _ hsome' entry hentry (hmem ▸ hx)

theorem noInspectorLost_of_run {c : Cpu} {as : List CpuAction}
    (hrun : Run Cpu.step RevokesQueued Cpu.boot as c)
    : NoInspectorLost c := by
  apply hrun.invariant NoInspectorLost
  . intro id hid
    simp [Cpu.boot, Runtime.new] at hid
  . exact fun _ _ _ hkept hallowed hstep => hkept.step hallowed hstep

theorem idxOf_add_visited {c c' : Cpu} {a : CpuAction} {id : InspectorId}
    (hnone : c.rt.schedTable = none) (hallowed : RoundRobin.OnlyRegister c a)
    (hstep : c.step a = .next c') (hqueued : id ∈ c.rt.queue) (hskip : id ∉ c.visited a)
    : c'.rt.schedTable = none ∧ id ∈ c'.rt.queue ∧
        c'.rt.queue.idxOf id + (c.visited a).length = c.rt.queue.idxOf id := by
  have hsame : c.rt.SameTable c'.rt → c'.rt.schedTable = none := by
    intro htable
    simpa [hnone] using htable.isSome
  cases Cpu.queueStep hstep with
  | same hvisited hqueue _ _ htable =>
    refine ⟨hsame htable, by rwa [hqueue], ?_⟩
    rw [hvisited, hqueue, List.length_nil, Nat.add_zero]
  | @popFront _ x hpc hqueue _ _ htable =>
    have hvisited : c.visited .run = [x] := by simp [Cpu.visited, hpc, hqueue]
    have hne : x ≠ id := by
      rintro rfl
      simp [hvisited] at hskip
    refine ⟨hsame htable, ?_, ?_⟩
    . rw [hqueue, List.mem_cons] at hqueued
      exact hqueued.resolve_left (fun h => hne h.symm)
    . rw [hvisited, hqueue, List.idxOf_cons_ne _ hne]
      rfl
  | unregister hpc hqueue _ _ htable =>
    have hvisited : c.visited .run = [] := Cpu.visited_of_ne (.inr (by simp [hpc]))
    refine ⟨hsame htable, by rwa [hqueue], ?_⟩
    rw [hvisited, hqueue, List.length_nil, Nat.add_zero]
  | pushBack hpc hqueue _ _ htable =>
    have hvisited : c.visited .run = [] := Cpu.visited_of_ne (.inr (by simp [hpc]))
    refine ⟨hsame htable, by simp [hqueue, hqueued], ?_⟩
    rw [hvisited, hqueue, List.idxOf_append_of_mem hqueued, List.length_nil, Nat.add_zero]
  | @opRegister _ x rootExecutor others _ hqueue _ _ htable =>
    have hvisited : c.visited (.op (.register x rootExecutor others)) = [] :=
      Cpu.visited_of_ne (.inl (by simp))
    refine ⟨hsame htable, by simp [hqueue, hqueued], ?_⟩
    rw [hvisited, hqueue, List.idxOf_append_of_mem hqueued, List.length_nil, Nat.add_zero]
  | opUnregister hreg => exact absurd hreg hallowed
  | opEnact => simp [RoundRobin.OnlyRegister] at hallowed
  | opRevoke hsome => simp [hnone] at hsome

theorem visited_of_idxOf_lt {c c' : Cpu} {as : List CpuAction} {id : InspectorId}
    (hrun : Run Cpu.step RoundRobin.OnlyRegister c as c') (hnone : c.rt.schedTable = none)
    (hqueued : id ∈ c.rt.queue)
    (hlt : c.rt.queue.idxOf id < (observe Cpu.step Cpu.visited c as).length)
    : id ∈ observe Cpu.step Cpu.visited c as := by
  induction hrun with
  | nil => simp [observe] at hlt
  | @cons s s' _ a as hallowed hstep hrest ih =>
    rw [Run.observe_cons hstep] at hlt ⊢
    rw [List.mem_append]
    by_cases hskip : id ∈ s.visited a
    . exact .inl hskip
    . right
      obtain ⟨hnone', hqueued', hrank⟩ := idxOf_add_visited hnone hallowed hstep hqueued hskip
      rw [List.length_append] at hlt
      exact ih hnone' hqueued' (by omega)

def stepsToVisit : RuntimePc → Option Nat
  | .popFront => some 1
  | .testTable => some 2
  | .start => some 3
  | .leave .table => some 4
  | .tableNext => some 5
  | _ => none

theorem exec_visit {c : Cpu} {n : Nat} (hnone : c.rt.schedTable = none) (hqueue : c.rt.queue ≠ [])
    (hpc : stepsToVisit c.pc = some n)
    : ∃ c', exec Cpu.step c (List.replicate n .run) = .next c' ∧
        ∃ id, c.rt.queue.head? = some id ∧ c'.pc = .setCurrent .queue id := by
  obtain ⟨id, queue, hcons⟩ := List.exists_cons_of_ne_nil hqueue
  obtain ⟨rt, pc, softPending⟩ := c
  simp only at hnone hcons hpc
  unfold stepsToVisit at hpc
  split at hpc
  all_goals
    first
    | simp only [Option.some.injEq] at hpc
      subst hpc
      refine ⟨{ rt := { rt with queue }, pc := .setCurrent .queue id, softPending }, ?_, id, ?_, rfl⟩
      case refine_2 => simp [hcons]
      simp [exec, Cpu.step, Cpu.runStep, Runtime.schedTableNext, Runtime.popFront, hnone, hcons]
    | simp at hpc

/--
If tables are revoked only when the inspectors that they name are in the run queue again, no inspector
is lost, and without a table every registered inspector waits in the run queue for its next visit, the
loop does not end before that.
-/
theorem noInspectorLost_of_revokesQueued {c : Cpu} {as : List CpuAction}
    (hrun : Run Cpu.step RevokesQueued Cpu.boot as c)
    : NoInspectorLost c
        ∧
      (c.rt.schedTable = none → c.pc.held = [] → ∀ id ∈ c.rt.registry,
        (∀ n, stepsToVisit c.pc = some n →
          ∃ c', exec Cpu.step c (List.replicate n .run) = .next c' ∧
            ∃ id, c.rt.queue.head? = some id ∧ c'.pc = .setCurrent .queue id) ∧
        ∀ bs c', Run Cpu.step RoundRobin.OnlyRegister c bs c' →
          c.rt.queue.idxOf id < (observe Cpu.step Cpu.visited c bs).length →
          id ∈ observe Cpu.step Cpu.visited c bs) := by
  have hkept := noInspectorLost_of_run hrun
  refine ⟨hkept, ?_⟩
  intro hnone hheld id hid
  have hqueued : id ∈ c.rt.queue := by
    rcases hkept id hid with h | ⟨_, hsome, _⟩
    . simpa [hheld] using h
    . simp [hnone] at hsome
  constructor
  . intro n hpc
    exact exec_visit hnone (List.ne_nil_of_mem hqueued) hpc
  . intro bs c' hrest hlt
    exact visited_of_idxOf_lt hrest hnone hqueued hlt

def tableOf (id : InspectorId) : RuntimeSchedTable where
  frameSize := ⟨10, by decide⟩
  table := [⟨id, .zero, ⟨10, by decide⟩, ⟨10, by decide⟩⟩]
  next := 0
  datum := .zero

instance (c : Cpu) (a : CpuAction) : Decidable (NoRemoval c a) := by
  induction a using CpuAction.casesOn with
  | op op =>
    induction op using RuntimeOp.casesOn with
    | unregister id => exact inferInstanceAs (Decidable (id ∉ c.rt.registry))
    | _ => exact isTrue trivial
  | _ => exact isTrue trivial

instance (c : Cpu) (a : CpuAction) : Decidable (RevokesQueued c a) := by
  induction a using CpuAction.casesOn with
  | op op =>
    induction op using RuntimeOp.casesOn with
    | revokeSchedTable =>
      exact inferInstanceAs (Decidable (∀ table ∈ c.rt.schedTable, ∀ entry ∈ table.table,
        entry.inspectorId ∈ c.rt.registry → entry.inspectorId ∈ c.rt.queue ++ c.pc.held))
    | _ => exact isTrue trivial
  | _ => exact isTrue trivial

def registerOne : CpuAction := .op (.register ⟨1⟩ (.new ⟨1⟩ ⟨0⟩ ⟨⟨1⟩, ⟨0⟩⟩) [])

def revokedInQueue : List CpuAction :=
  -- An inspector enacts a table that names itself. At the end of the visit it is put back into the
  -- run queue, and then the table is revoked.
  registerOne :: List.replicate 7 .run ++
    [.op (.enactSchedTable (tableOf ⟨1⟩)), .op (.markPending ⟨1⟩), .yield] ++ List.replicate 7 .run ++
    [.op .revokeSchedTable]

theorem noInspectorLost_revokedInQueue
    : ∃ c, Run Cpu.step RevokesQueued Cpu.boot revokedInQueue c ∧ c.pc = .testTable ∧
        ⟨1⟩ ∈ c.rt.registry ∧ NoInspectorLost c ∧ ⟨1⟩ ∈ observe Cpu.step Cpu.visited c [.run, .run] := by
  obtain ⟨c, hrun, hc⟩ := exists_run_of_exec (checked Cpu.step RevokesQueued) Cpu.boot revokedInQueue
    (fun c => decide (c.pc = .testTable) && c.rt.schedTable.isNone && ⟨1⟩ ∈ c.rt.registry &&
      (exec (checked Cpu.step RoundRobin.OnlyRegister) c [.run, .run]).holds (fun _ =>
        c.rt.queue.idxOf ⟨1⟩ < (observe Cpu.step Cpu.visited c [.run, .run]).length))
    (by decide +kernel)
  simp only [Bool.and_eq_true, decide_eq_true_eq, Option.isNone_iff_eq_none, Outcome.holds_iff] at hc
  obtain ⟨⟨⟨hpc, hnone⟩, hmem⟩, c', hexec, hlt⟩ := hc
  have hall := noInspectorLost_of_revokesQueued hrun.of_checked
  refine ⟨c, hrun.of_checked, hpc, hmem, hall.1, ?_⟩
  exact (hall.2 hnone (by rw [hpc]; rfl) _ hmem).2 _ c' (Run.of_exec hexec).of_checked hlt

def revokedAtOnce : List CpuAction :=
  -- The table is revoked while the inspector that it names is not in the run queue.
  [registerOne, .op (.enactSchedTable (tableOf ⟨1⟩)), .op .revokeSchedTable, .run]

theorem noInspectorLost_revokedAtOnce_false
    : ¬ ∀ as c, Run Cpu.step NoRemoval Cpu.boot as c → c.pc = .testTable → NoInspectorLost c := by
  intro hall
  obtain ⟨c, hrun, hc⟩ := exists_run_of_exec (checked Cpu.step NoRemoval) Cpu.boot revokedAtOnce
    (fun c => decide (c.pc = .testTable) && c.rt.schedTable.isNone && ⟨1⟩ ∈ c.rt.registry &&
      c.rt.queue.isEmpty)
    (by decide +kernel)
  simp only [Bool.and_eq_true, decide_eq_true_eq, Option.isNone_iff_eq_none, List.isEmpty_iff] at hc
  obtain ⟨⟨⟨hpc, hnone⟩, hmem⟩, hqueue⟩ := hc
  rcases hall _ c hrun.of_checked hpc _ hmem with h | ⟨_, hsome, _⟩
  . simp [hqueue, hpc, RuntimePc.held] at h
  . simp [hnone] at hsome

end TableLoss

end Jrinx
