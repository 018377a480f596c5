import Jrinx.Multitask.LoopStep

/-!
This module contains the round robin of `Runtime::run_without_sched_table`: as long as no schedule
table is enacted, the run queue enumerates the registry and the inspectors are visited in turn.
-/

namespace Jrinx

open Std

namespace RoundRobin

/--
No schedule table is enacted and nobody but the loop takes inspectors out of the registry.
-/
def OnlyRegister (c : Cpu) (a : CpuAction) : Prop :=
  match a with
  | .op (.enactSchedTable _) => False
  | .op (.unregister id) => id ∉ c.rt.registry
  | _ => True

structure Inv (c : Cpu) : Prop where
  schedTable : c.rt.schedTable = none
  nodup : (c.rt.queue ++ c.pc.held).Nodup
  mem_iff : ∀ id, id ∈ c.rt.registry ↔ id ∈ c.rt.queue ++ c.pc.held

theorem inv_boot : Inv Cpu.boot := by
  constructor <;> simp [Cpu.boot, Runtime.new, RuntimePc.held]

theorem Inv.step {c c' : Cpu} {a : CpuAction} (hinv : Inv c) (hallowed : OnlyRegister c a)
    (hstep : c.step a = .next c')
    : Inv c' := by
  have hnone := hinv.schedTable
  have hnodup := hinv.nodup
  have hreg := hinv.mem_iff
  have hsame : c.rt.SameTable c'.rt → c'.rt.schedTable = none := by
    intro htable
    simpa [hnone] using htable.isSome
  cases Cpu.queueStep hstep with
  | same _ hqueue hheld hmem htable =>
    constructor
    . exact hsame htable
    . rwa [hqueue, hheld]
    . intro x
      rw [hqueue, hheld, hmem, hreg]
  | popFront hpc hqueue hheld hmem htable =>
    rw [hpc, hqueue] at hnodup hreg
    simp only [RuntimePc.held] at hnodup hreg
    constructor
    . exact hsame htable
    . rw [hheld]
      grind
    . rw [hheld, hmem]
      grind
  | unregister hpc hqueue hheld hmem htable =>
    rw [hpc] at hnodup hreg
    simp only [RuntimePc.held] at hnodup hreg
    constructor
    . exact hsame htable
    . rw [hheld, hqueue]
      grind
    . rw [hheld, hmem, hqueue]
      grind
  | pushBack hpc hqueue hheld hmem htable =>
    rw [hpc] at hnodup hreg
    simp only [RuntimePc.held] at hnodup hreg
    constructor
    . exact hsame htable
    . rw [hheld, hqueue]
      grind
    . rw [hheld, hmem, hqueue]
      grind
  | opRegister hnew hqueue hpc hmem htable =>
    constructor
    . exact hsame htable
    . rw [hqueue, hpc]
      grind
    . intro x
      rw [hqueue, hpc, hmem]
      grind
  | opUnregister hreg => exact absurd hreg hallowed
  | opEnact => simp [OnlyRegister] at hallowed
  | opRevoke hsome => simp [hnone] at hsome

def Before (l : List InspectorId) (a b : InspectorId) : Prop :=
  ∃ p q, l = p ++ b :: q ∧ a ∈ p

inductive Turn (a b : InspectorId) (c : Cpu) : Nat → Prop where
  | visiting (ha : c.pc.held = [a]) (hb : b ∈ c.rt.queue) : Turn a b c 0
  | ahead (h : Before c.rt.queue b a) : Turn a b c 0
  | taken (hb : c.pc.held = [b]) (ha : a ∈ c.rt.queue) : Turn a b c 1
  | behind (h : Before c.rt.queue a b) : Turn a b c 1

theorem Before.append {l : List InspectorId} {a b : InspectorId} (h : Before l a b)
    (m : List InspectorId)
    : Before (l ++ m) a b := by
  obtain ⟨p, q, rfl, hp⟩ := h
  exact ⟨p, q ++ m, by simp, hp⟩

theorem before_concat {l : List InspectorId} {a b : InspectorId} (h : a ∈ l)
    : Before (l ++ [b]) a b :=
  ⟨l, [], rfl, h⟩

theorem Before.tail {x a b : InspectorId} {l : List InspectorId} (h : Before (x :: l) a b)
    (hb : x ≠ b)
    : (x = a ∧ b ∈ l) ∨ Before l a b := by
  obtain ⟨p, q, heq, hp⟩ := h
  cases p with
  | nil => simp at hp
  | cons y p =>
    simp only [List.cons_append, List.cons.injEq] at heq
    obtain ⟨rfl, rfl⟩ := heq
    rcases List.mem_cons.mp hp with rfl | hp
    . exact .inl ⟨rfl, by simp⟩
    . exact .inr ⟨p, q, rfl, hp⟩

theorem Before.ne_head {x a b : InspectorId} {l : List InspectorId} (h : Before (x :: l) a b)
    (hnodup : (x :: l).Nodup)
    : x ≠ b := by
  obtain ⟨p, q, heq, hp⟩ := h
  cases p with
  | nil => simp at hp
  | cons y p => grind

theorem Turn.step {a b : InspectorId} {c c' : Cpu} {n : Nat} {act : CpuAction} (hinv : Inv c)
    (hturn : Turn a b c n) (hallowed : OnlyRegister c act) (hstep : c.step act = .next c')
    (ha : a ∈ c'.rt.registry) (hb : b ∈ c'.rt.registry) (hskip : a ∉ c.visited act)
    : Turn a b c' (n + (c.visited act).count b) := by
  have hnodup := hinv.nodup
  cases Cpu.queueStep hstep with
  | same hvisited hqueue hheld hmem htable =>
    rw [hvisited, List.count_nil, Nat.add_zero]
    cases hturn with
    | visiting ha hb => exact .visiting (by rwa [hheld]) (by rwa [hqueue])
    | ahead h => exact .ahead (by rwa [hqueue])
    | taken hb ha => exact .taken (by rwa [hheld]) (by rwa [hqueue])
    | behind h => exact .behind (by rwa [hqueue])
  | @popFront c' id hpc hqueue hheld hmem htable =>
    have hvisited : c.visited .run = [id] := by simp [Cpu.visited, hpc, hqueue]
    have hne : id ≠ a := by
      rintro rfl
      simp [hvisited] at hskip
    simp only [hpc, hqueue, RuntimePc.held, List.append_nil] at hnodup
    rw [hvisited]
    cases hturn with
    | visiting ha hb => simp [hpc, RuntimePc.held] at ha
    | taken hb ha => simp [hpc, RuntimePc.held] at hb
    | ahead h =>
      rw [hqueue] at h
      rcases h.tail hne with ⟨rfl, ha⟩ | h
      . simpa using Turn.taken hheld ha
      . by_cases hid : id = b
        . obtain ⟨p, q, heq, hp⟩ := h
          grind
        . simpa [hid] using Turn.ahead h
    | behind h =>
      rw [hqueue] at h
      have hid := h.ne_head hnodup
      rcases h.tail hid with ⟨rfl, _⟩ | h
      . exact absurd rfl hne
      . simpa [hid] using Turn.behind h
  | @unregister c' id hpc hqueue hheld hmem htable =>
    have hvisited : c.visited .run = [] := Cpu.visited_of_ne (.inr (by simp [hpc]))
    rw [hvisited, List.count_nil, Nat.add_zero]
    have hgone : id ∉ c'.rt.registry := by simp [hmem]
    cases hturn with
    | visiting ha' hb =>
      simp only [hpc, RuntimePc.held, List.cons.injEq, and_true] at ha'
      subst ha'
      exact absurd ha hgone
    | ahead h => exact .ahead (by rwa [hqueue])
    | taken hb' ha =>
      simp only [hpc, RuntimePc.held, List.cons.injEq, and_true] at hb'
      subst hb'
      exact absurd hb hgone
    | behind h => exact .behind (by rwa [hqueue])
  | @pushBack c' id hpc hqueue hheld hmem htable =>
    have hvisited : c.visited .run = [] := Cpu.visited_of_ne (.inr (by simp [hpc]))
    rw [hvisited, List.count_nil, Nat.add_zero]
    cases hturn with
    | visiting ha hb =>
      simp only [hpc, RuntimePc.held, List.cons.injEq, and_true] at ha
      subst ha
      exact .ahead (by rw [hqueue]; exact before_concat hb)
    | ahead h => exact .ahead (by rw [hqueue]; exact h.append _)
    | taken hb ha =>
      simp only [hpc, RuntimePc.held, List.cons.injEq, and_true] at hb
      subst hb
      exact .behind (by rw [hqueue]; exact before_concat ha)
    | behind h => exact .behind (by rw [hqueue]; exact h.append _)
  | @opRegister c' id rootExecutor others hnew hqueue hpc hmem htable =>
    have hvisited : c.visited (.op (.register id rootExecutor others)) = [] :=
      Cpu.visited_of_ne (.inl (by simp))
    rw [hvisited, List.count_nil, Nat.add_zero]
    cases hturn with
    | visiting ha hb => exact .visiting (by rwa [hpc]) (by rw [hqueue]; simp [hb])
    | ahead h => exact .ahead (by rw [hqueue]; exact h.append _)
    | taken hb ha => exact .taken (by rwa [hpc]) (by rw [hqueue]; simp [ha])
    | behind h => exact .behind (by rw [hqueue]; exact h.append _)
  | opUnregister hreg => exact absurd hreg hallowed
  | opEnact => simp [OnlyRegister] at hallowed
  | opRevoke hsome => simp [hinv.schedTable] at hsome

/--
Both inspectors stay registered. Identifiers are not used twice, so they are the same inspectors all
along.
-/
def Span (a b : InspectorId) (c : Cpu) (act : CpuAction) : Prop :=
  OnlyRegister c act ∧ a ∈ c.rt.registry ∧ b ∈ c.rt.registry

theorem Span.mem_registry {a b : InspectorId} {c c' : Cpu} {as : List CpuAction}
    (hrun : Run Cpu.step (Span a b) c as c') (ha : a ∈ c'.rt.registry) (hb : b ∈ c'.rt.registry)
    : a ∈ c.rt.registry ∧ b ∈ c.rt.registry := by
  cases hrun with
  | nil => exact ⟨ha, hb⟩
  | cons hallowed _ _ => exact hallowed.2

theorem Turn.run {a b : InspectorId} {c c' : Cpu} {n : Nat} {as : List CpuAction}
    (hrun : Run Cpu.step (Span a b) c as c') (hinv : Inv c) (hturn : Turn a b c n)
    (ha : a ∈ c'.rt.registry) (hb : b ∈ c'.rt.registry)
    (hskip : a ∉ observe Cpu.step Cpu.visited c as)
    : Turn a b c' (n + (observe Cpu.step Cpu.visited c as).count b) := by
  induction hrun generalizing n with
  | nil => simpa [observe] using hturn
  | cons hallowed hstep hrest ih =>
    rw [Run.observe_cons hstep] at hskip ⊢
    simp only [List.mem_append, not_or] at hskip
    obtain ⟨ha', hb'⟩ := Span.mem_registry hrest ha hb
    have hturn := hturn.step hinv hallowed.1 hstep ha' hb' hskip.1
    have := ih (hinv.step hallowed.1 hstep) hturn ha hb hskip.2
    rwa [List.count_append, ← Nat.add_assoc]

theorem inv_of_run {c c' : Cpu} {as : List CpuAction} (hrun : Run Cpu.step OnlyRegister c as c')
    (hinv : Inv c)
    : Inv c' :=
  hrun.invariant Inv hinv (fun _ _ _ hinv hallowed hstep => hinv.step hallowed hstep)

theorem visited_eq_singleton {c : Cpu} {act : CpuAction} {a : InspectorId} (h : c.visited act = [a])
    : act = .run ∧ c.pc = .popFront ∧ ∃ queue, c.rt.queue = a :: queue := by
  unfold Cpu.visited at h
  split at h
  . next hpc =>
    cases hqueue : c.rt.queue <;> simp_all
  . simp at h

theorem Inv.visited_between {a b : InspectorId} {c c₁ c₂ : Cpu} {as : List CpuAction} (hinv : Inv c)
    (hne : b ≠ a) (hfirst : c.visited .run = [a]) (hstep : c.step .run = .next c₁)
    (hrun : Run Cpu.step (Span a b) c₁ as c₂) (hb : b ∈ c₂.rt.registry)
    (hskip : a ∉ observe Cpu.step Cpu.visited c₁ as) (hsecond : c₂.visited .run = [a])
    : (observe Cpu.step Cpu.visited c₁ as).count b = 1 := by
  have hinv₁ := hinv.step (a := .run) trivial hstep
  have hinv₂ := inv_of_run (hrun.mono fun _ _ h => h.1) hinv₁
  obtain ⟨_, hpc₂, queue₂, hqueue₂⟩ := visited_eq_singleton hsecond
  have ha : a ∈ c₂.rt.registry := by simp [hinv₂.mem_iff, hqueue₂]
  obtain ⟨_, hb₁⟩ := Span.mem_registry hrun ha hb
  have hturn : Turn a b c₁ 0 := by
    obtain ⟨_, hpc, queue, hqueue⟩ := visited_eq_singleton hfirst
    have hheld : c₁.pc.held = [a] := by
      simp only [Cpu.step, Cpu.runStep, hpc, Runtime.popFront, hqueue, Outcome.next.injEq] at hstep
      subst hstep
      rfl
    refine .visiting hheld ?_
    simpa [hinv₁.mem_iff, hheld, hne] using hb₁
  have hturn₂ := hturn.run hrun hinv₁ ha hb hskip
  rw [Nat.zero_add] at hturn₂
  have hnodup := hinv₂.nodup
  simp only [hpc₂, hqueue₂, RuntimePc.held, List.append_nil] at hnodup
  generalize (observe Cpu.step Cpu.visited c₁ as).count b = n at hturn₂ ⊢
  cases hturn₂ with
  | visiting ha hb => simp [hpc₂, RuntimePc.held] at ha
  | ahead h =>
    rw [hqueue₂] at h
    exact absurd rfl (h.ne_head hnodup)
  | taken hb ha => rfl
  | behind h => rfl

theorem Inv.no_panic {c : Cpu} {id : InspectorId} (hinv : Inv c)
    (hpc : c.pc = .testEmpty id ∨ c.pc = .unregister id ∨ c.pc = .pushBack id)
    : c.step .run ≠ .panic := by
  have hmem : id ∈ c.rt.registry := by
    rw [hinv.mem_iff]
    rcases hpc with hpc | hpc | hpc <;> simp [hpc, RuntimePc.held]
  obtain ⟨is, his⟩ := SerialId.mem_iff_exists.mp hmem
  rcases hpc with hpc | hpc | hpc
  . simp [Cpu.step, Cpu.runStep, hpc, Runtime.withInspector, his]
  . simp [Cpu.step, Cpu.runStep, hpc, Runtime.unregister, hmem]
  . simp [Cpu.step, Cpu.runStep, hpc, Runtime.pushBack, hmem]

def FindsFinished (c : Cpu) (id : InspectorId) : Prop :=
  c.pc = .testEmpty id ∧ ∃ is, c.rt.registry[id]? = some is ∧ is.isEmpty = true ∧ is.status = .idle

theorem leaves_registry_iff {c c' : Cpu} {a : CpuAction} {id : InspectorId}
    (hallowed : OnlyRegister c a) (hmem : id ∈ c.rt.registry) (hstep : c.step a = .next c')
    : id ∉ c'.rt.registry ↔ a = .run ∧ c.pc = .unregister id := by
  constructor
  . intro hgone
    cases Cpu.queueStep hstep with
    | same _ _ _ hmem' _ => exact absurd ((hmem' id).mpr hmem) hgone
    | unregister hpc _ _ hmem' _ =>
      rw [hmem', ExtTreeMap.mem_erase] at hgone
      simp_all
    | popFront _ _ _ hmem' _ | pushBack _ _ _ hmem' _ | opRevoke _ _ _ hmem' _ =>
      exact absurd (hmem' ▸ hmem) hgone
    | opRegister _ _ _ hmem' _ => exact absurd ((hmem' id).mpr (.inr hmem)) hgone
    | opUnregister hreg => exact absurd hreg hallowed
    | opEnact => simp [OnlyRegister] at hallowed
  . rintro ⟨rfl, hpc⟩
    simp only [Cpu.step, Cpu.runStep, hpc, Runtime.unregister, hmem, if_true, Outcome.unwrap_ok,
      Outcome.next.injEq] at hstep
    subst hstep
    simp

theorem enters_unregister_iff {c c' : Cpu} {a : CpuAction} {id : InspectorId}
    (hpc : c.pc ≠ .unregister id) (hstep : c.step a = .next c')
    : c'.pc = .unregister id ↔ a = .run ∧ FindsFinished c id := by
  constructor
  . intro hpc'
    cases Cpu.loopStep hstep with
    | jump _ hjump =>
      rw [hpc'] at hjump
      cases hfrom : c.pc with
      | testEmpty x =>
        rw [hfrom] at hjump
        cases hjump with
        | retire hget hempty hidle => exact ⟨rfl, hfrom, _, hget, hempty, hidle⟩
      | _ =>
        rw [hfrom] at hjump
        cases hjump
    | _ => simp_all
  . rintro ⟨rfl, htest, is, hget, hempty, hidle⟩
    simp only [Cpu.step, Cpu.runStep, htest, Runtime.withInspector, hget, hempty, hidle,
      Outcome.unwrap_ok, Outcome.next.injEq] at hstep
    subst hstep
    simp

theorem stays_at_unregister {c c' : Cpu} {a : CpuAction} {id : InspectorId}
    (hpc : c.pc = .unregister id) (ha : a ≠ .run) (hstep : c.step a = .next c')
    : c'.pc = .unregister id := by
  cases Cpu.loopStep hstep <;> simp_all

structure Enumerates (l : List InspectorId) (rt : Runtime) : Prop where
  nodup : l.Nodup
  mem_iff : ∀ id, id ∈ l ↔ id ∈ rt.registry

theorem Inv.enumerates_queue {c : Cpu} (hinv : Inv c) (hheld : c.pc.held = [])
    : Enumerates c.rt.queue c.rt := by
  have hnodup := hinv.nodup
  have hmem := hinv.mem_iff
  simp only [hheld, List.append_nil] at hnodup hmem
  exact ⟨hnodup, fun id => (hmem id).symm⟩

theorem Inv.enumerates_visit {c : Cpu} {id : InspectorId} (hinv : Inv c) (hheld : c.pc.held = [id])
    : Enumerates (id :: c.rt.queue) c.rt := by
  have hnodup := hinv.nodup
  have hmem := hinv.mem_iff
  simp only [hheld] at hnodup hmem
  constructor
  . grind
  . intro x
    rw [hmem x]
    grind

/--
The run queue of `run_without_sched_table` is a round robin: it enumerates the registry at the head
of the loop, together with the visited inspector it does so during a visit, the end of a visit does
not panic, inspectors leave the registry only there and only if they were found to be finished, and
between two visits to one inspector every other one is visited once.
-/
theorem runWithoutSchedTable_roundRobin {as : List CpuAction} {c : Cpu}
    (hrun : Run Cpu.step OnlyRegister Cpu.boot as c)
    : (c.pc = .testTable ∨ c.pc = .popFront → Enumerates c.rt.queue c.rt)
        ∧
      (∀ id, c.pc.held = [id] → Enumerates (id :: c.rt.queue) c.rt)
        ∧
      (∀ id, c.pc = .testEmpty id ∨ c.pc = .unregister id ∨ c.pc = .pushBack id →
        c.step .run ≠ .panic)
        ∧
      (∀ a c' id, OnlyRegister c a → c.step a = .next c' →
        (id ∈ c.rt.registry → (id ∉ c'.rt.registry ↔ a = .run ∧ c.pc = .unregister id)) ∧
        (c.pc ≠ .unregister id → (c'.pc = .unregister id ↔ a = .run ∧ FindsFinished c id)) ∧
        (c.pc = .unregister id → a ≠ .run → c'.pc = .unregister id))
        ∧
      (∀ a b c₁ c₂ bs, b ≠ a → c.visited .run = [a] → c.step .run = .next c₁ →
        Run Cpu.step (Span a b) c₁ bs c₂ → b ∈ c₂.rt.registry →
        a ∉ observe Cpu.step Cpu.visited c₁ bs → c₂.visited .run = [a] →
        (observe Cpu.step Cpu.visited c₁ bs).count b = 1) := by
  have hinv := inv_of_run hrun inv_boot
  refine ⟨?_, ?_, ?_, ?_, ?_⟩
  . rintro (hpc | hpc)
    . exact hinv.enumerates_queue (by rw [hpc]; rfl)
    . exact hinv.enumerates_queue (by rw [hpc]; rfl)
  . exact fun id hheld => hinv.enumerates_visit hheld
  . exact fun id hpc => hinv.no_panic hpc
  . intro a c' id hallowed hstep
    refine ⟨?_, ?_, ?_⟩
    . exact fun hmem => leaves_registry_iff hallowed hmem hstep
    . exact fun hpc => enters_unregister_iff hpc hstep
    . exact fun hpc ha => stays_at_unregister hpc ha hstep
  . intro a b c₁ c₂ bs hne hfirst hstep hspan hb hskip hsecond
    exact hinv.visited_between hne hfirst hstep hspan hb hskip hsecond

instance (c : Cpu) (a : CpuAction) : Decidable (OnlyRegister c a) := by
  induction a using CpuAction.casesOn with
  | op op =>
    induction op using RuntimeOp.casesOn with
    | enactSchedTable table => exact isFalse id
    | unregister id => exact inferInstanceAs (Decidable (id ∉ c.rt.registry))
    | _ => exact isTrue trivial
  | _ => exact isTrue trivial

instance (a b : InspectorId) (c : Cpu) (act : CpuAction) : Decidable (Span a b c act) :=
  inferInstanceAs (Decidable (_ ∧ _))

def twoRegistered : List CpuAction :=
  -- Two inspectors are registered and the loop is about to visit the first one.
  [
    .op (.register ⟨1⟩ (.new ⟨1⟩ ⟨0⟩ ⟨⟨1⟩, ⟨0⟩⟩) []), .op (.register ⟨2⟩ (.new ⟨2⟩ ⟨0⟩ ⟨⟨2⟩, ⟨0⟩⟩) []),
    .run, .run
  ]

def pendingVisit (id : InspectorId) : List CpuAction :=
  -- A visit without its first step, the root executor marks the inspector as pending and yields.
  [.run, .run, .run, .run, .op (.markPending id), .yield] ++ List.replicate 8 .run

theorem roundRobin_twoRegistered
    : ∃ c c₁ c₂, Run Cpu.step OnlyRegister Cpu.boot twoRegistered c ∧ c.visited .run = [⟨1⟩] ∧
        c.step .run = .next c₁ ∧
        Run Cpu.step (Span ⟨1⟩ ⟨2⟩) c₁ (pendingVisit ⟨1⟩ ++ .run :: pendingVisit ⟨2⟩) c₂ ∧
        c₂.visited .run = [⟨1⟩] ∧ Enumerates c.rt.queue c.rt ∧
        (observe Cpu.step Cpu.visited c₁
          (pendingVisit ⟨1⟩ ++ .run :: pendingVisit ⟨2⟩)).count ⟨2⟩ = 1 := by
  obtain ⟨c, hrun, hc⟩ := exists_run_of_exec (checked Cpu.step OnlyRegister) Cpu.boot twoRegistered
    (fun c => c.visited .run = [⟨1⟩] && decide (c.pc = .popFront) && (c.step .run).holds fun c₁ =>
      ⟨1⟩ ∉ observe Cpu.step Cpu.visited c₁ (pendingVisit ⟨1⟩ ++ .run :: pendingVisit ⟨2⟩) &&
      (exec (checked Cpu.step (Span ⟨1⟩ ⟨2⟩)) c₁ (pendingVisit ⟨1⟩ ++ .run :: pendingVisit ⟨2⟩)).holds
        fun c₂ => ⟨2⟩ ∈ c₂.rt.registry && c₂.visited .run = [⟨1⟩])
    (by decide +kernel)
  simp only [Bool.and_eq_true, decide_eq_true_eq, Outcome.holds_iff] at hc
  obtain ⟨⟨hfirst, hpc⟩, c₁, hstep, hskip, c₂, hexec, hmem, hsecond⟩ := hc
  have hspan := (Run.of_exec hexec).of_checked
  have hall := runWithoutSchedTable_roundRobin hrun.of_checked
  refine ⟨c, c₁, c₂, hrun.of_checked, hfirst, hstep, hspan, hsecond, hall.1 (.inr hpc), ?_⟩
  exact hall.2.2.2.2 _ _ _ _ _ (by decide) hfirst hstep hspan hmem hskip hsecond

end RoundRobin

end Jrinx
