import Jrinx.Multitask.LoopStep

/-!
This module says once what a step of a CPU can do to one inspector of its runtime.
-/

namespace Jrinx

open Std

def RuntimePc.inspectorPc (pc : RuntimePc) (id : InspectorId) : Option InspectorPc :=
  match pc with
  | .visit _ id' p => if id' = id then some p else none
  | _ => none

def Cpu.VisitsCurrent (c : Cpu) : Prop :=
  ∀ mode id p, c.pc = .visit mode id p → c.rt.status = .running id

theorem Jump.ne_visit {rt : Runtime} {pc : RuntimePc} {mode : VisitMode} {id : InspectorId}
    {p : InspectorPc}
    : ¬ Jump rt pc (.visit mode id p) := by
  intro h
  cases h

theorem Cpu.VisitsCurrent.step {c c' : Cpu} {a : CpuAction} (hinv : c.VisitsCurrent)
    (hstep : c.step a = .next c')
    : c'.VisitsCurrent := by
  intro mode id p hpc'
  cases Cpu.loopStep hstep with
  | inner ha hrt hpc =>
    rw [hrt.status]
    exact hinv mode id p (by rw [← hpc, hpc'])
  | visit hrt hfrom hto =>
    rw [hpc'] at hto
    simp only [RuntimePc.visit.injEq] at hto
    obtain ⟨rfl, rfl, _⟩ := hto
    rw [hrt.status]
    exact hinv _ _ _ hfrom
  | jump hrt hjump =>
    rw [hpc'] at hjump
    exact absurd hjump Jump.ne_visit
  | enter hrt hfrom hto =>
    rw [hpc'] at hto
    simp only [RuntimePc.visit.injEq] at hto
    simp [hrt, hto]
  | opRegister hmem hrt hpc | opUnregister hmem hrt hpc | opEnact htable hrt hpc
  | opRevoke htable hrt hpc =>
    rw [hrt]
    exact hinv mode id p (by rw [← hpc, hpc'])
  | _ => simp_all

theorem Cpu.visitsCurrent_boot : Cpu.boot.VisitsCurrent := by
  intro mode id p hpc
  simp [Cpu.boot] at hpc

def Inspector.Inert (is : Inspector) (id : InspectorId) (pc : Option InspectorPc) : CpuAction → Prop
  | .run => pc = none
  | .op (.registerExecutor id' ex) => id' = id → ex.id ∈ is.registry
  | .op (.unregisterExecutor id' x) => id' = id → x ∉ is.registry
  | .op (.markPending id') => id' = id → is.status = .idle
  | _ => True

inductive InspectorStep (id : InspectorId) (is : Inspector)
    : Option InspectorPc → CpuAction → Inspector → Option InspectorPc → Prop where
  | same {pc : Option InspectorPc} {a : CpuAction} (hinert : is.Inert id pc a)
      : InspectorStep id is pc a is pc
  -- Something inside of an executor.
  | executor {pc : Option InspectorPc} {a : CpuAction} {x : ExecutorId} {ex ex' : Executor}
      (hinert : is.Inert id pc a) (hget : is.registry[x]? = some ex)
      (hsame : ex'.id = ex.id ∧ ex'.priority = ex.priority)
      : InspectorStep id is pc a { is with registry := is.registry.insert x ex' } pc
  | opRegister {pc : Option InspectorPc} {ex : Executor} (hnew : ex.id ∉ is.registry)
      : InspectorStep id is pc (.op (.registerExecutor id ex))
          {
            is with
            registry := is.registry.insert ex.id ex
            queue := is.queue.enqueue ex.priority ex.id
          } pc
  | opUnregister {pc : Option InspectorPc} {x : ExecutorId} (hmem : x ∈ is.registry)
      : InspectorStep id is pc (.op (.unregisterExecutor id x))
          { is with registry := is.registry.erase x } pc
  | opMarkPending {pc : Option InspectorPc} {x : ExecutorId}
      (hstatus : is.status = .running x ∨ is.status = .pending x)
      : InspectorStep id is pc (.op (.markPending id)) { is with status := .pending x } pc
  | enter : InspectorStep id is none .run is (some .dequeue)
  | dequeue {e : ExecutorPriority × ExecutorId} (hqueue : is.queue.dequeue.1 = some e)
      : InspectorStep id is (some .dequeue) .run { is with queue := is.queue.dequeue.2 }
          (some (.setCurrent e.2))
  | drained (hqueue : is.queue.dequeue.1 = none)
      : InspectorStep id is (some .dequeue) .run { is with queue := is.queue.dequeue.2 } none
  | setCurrent {x : ExecutorId}
      : InspectorStep id is (some (.setCurrent x)) .run { is with status := .running x }
          (some (.switchTo x))
  | switchTo {x y : ExecutorId} {ex : Executor} (hcurrent : is.current = .ok y)
      (hget : is.registry[y]? = some ex)
      : InspectorStep id is (some (.switchTo x)) .run is (some (.executing x ex.id))
  | yield {x y : ExecutorId}
      : InspectorStep id is (some (.executing x y)) .yield is (some (.clearCurrent x))
  | clearCurrent {x : ExecutorId}
      : InspectorStep id is (some (.clearCurrent x)) .run (is.setCurrent none)
          (some (.testFinished x))
  | finished {x : ExecutorId} {ex : Executor} (hget : is.registry[x]? = some ex)
      (hfinished : ex.status = .finished)
      : InspectorStep id is (some (.testFinished x)) .run is (some (.unregister x))
  | unfinished {x : ExecutorId} {ex : Executor} (hget : is.registry[x]? = some ex)
      (hrunnable : ex.status ≠ .finished)
      : InspectorStep id is (some (.testFinished x)) .run is (some (.enqueue x))
  | unregister {x : ExecutorId} (hmem : x ∈ is.registry)
      : InspectorStep id is (some (.unregister x)) .run { is with registry := is.registry.erase x }
          (some (.testPending x))
  | enqueue {x : ExecutorId} {ex : Executor} (hget : is.registry[x]? = some ex)
      : InspectorStep id is (some (.enqueue x)) .run { is with queue := is.queue.enqueue ex.priority x }
          (some (.testPending x))
  | switchOut {x y : ExecutorId} (hstatus : is.status = .pending y)
      : InspectorStep id is (some (.testPending x)) .run is none
  | again {x : ExecutorId} (hstatus : ∀ y, is.status ≠ .pending y)
      : InspectorStep id is (some (.testPending x)) .run is (some .dequeue)

namespace Runtime

theorem getElem?_insert_eq_some {rt : Runtime} {id id' : InspectorId} {is is' : Inspector}
    (h : (rt.registry.insert id' is')[id]? = some is)
    : (id = id' ∧ is = is') ∨ (id ≠ id' ∧ rt.registry[id]? = some is) := by
  rw [ExtTreeMap.getElem?_insert] at h
  grind

theorem tryInspector_getElem? {rt : Runtime} {id id' : InspectorId} {is' : Inspector}
    {f : Inspector → Except InternalError Inspector}
    (h : (rt.tryInspector id' f).registry[id]? = some is')
    : ∃ is, rt.registry[id]? = some is
        ∧ ((id = id' ∧ is' = (f is).toOption.getD is) ∨ (id ≠ id' ∧ is' = is)) := by
  unfold tryInspector at h
  split at h
  . next hok =>
    obtain ⟨is, his, _, rfl⟩ := withInspector_eq_ok hok
    rcases getElem?_insert_eq_some h with ⟨rfl, rfl⟩ | ⟨hne, hget⟩
    . exact ⟨is, his, .inl ⟨rfl, rfl⟩⟩
    . exact ⟨is', hget, .inr ⟨hne, rfl⟩⟩
  . next herr =>
    have hne : id ≠ id' := by
      rintro rfl
      simp [withInspector, h] at herr
    exact ⟨is', h, .inr ⟨hne, rfl⟩⟩

end Runtime

namespace Inspector

theorem withExecutor_read {β : Type} {is : Inspector} {x : ExecutorId} {g : Executor → β}
    {r : Except InternalError β × Inspector} {b : β}
    (h : is.withExecutor x (fun ex => (g ex, ex)) = r) (hok : r.1 = .ok b)
    : ∃ ex, is.registry[x]? = some ex ∧ b = g ex ∧ r.2 = is := by
  unfold withExecutor at h
  split at h
  . next ex hget =>
    subst h
    simp only [Except.ok.injEq] at hok
    refine ⟨ex, hget, hok.symm, ?_⟩
    have : is.registry.insert x ex = is.registry := by
      apply ExtTreeMap.ext_getElem?
      intro k
      rw [ExtTreeMap.getElem?_insert]
      grind
    simp [this]
  . subst h
    simp at hok

end Inspector

namespace Cpu

theorem inspectorStep_inspectorRun {c c' : Cpu} {mode : VisitMode} {id : InspectorId}
    {p : InspectorPc} (hstatus : c.rt.status = .running id)
    (h : c.inspectorRun mode id p = .next c')
    : ∃ is is' p', c.rt.registry[id]? = some is ∧ c'.rt.registry = c.rt.registry.insert id is' ∧
        InspectorStep id is (some p) .run is' p' ∧
        ((∃ q, p' = some q ∧ c'.pc = .visit mode id q) ∨
          (p' = none ∧ c'.pc = .clearCurrent mode id)) := by
  have hcurrent {β : Type} {f : Inspector → β × Inspector} {b : β} {rt : Runtime}
      (hok : c.rt.withCurrentInspector f = .ok (b, rt))
      : ∃ is, c.rt.registry[id]? = some is ∧ b = (f is).1 ∧
          rt.registry = c.rt.registry.insert id (f is).2 := by
    obtain ⟨id', is, hid, his, hb, rfl⟩ := Runtime.withCurrentInspector_eq_ok hok
    rw [hstatus, RuntimeStatus.running.injEq] at hid
    subst hid
    exact ⟨is, his, hb, rfl⟩
  cases p with
  | dequeue =>
    obtain ⟨⟨x, rt⟩, hok, h⟩ := Outcome.unwrap_eq_next h
    obtain ⟨is, his, hx, hrt⟩ := hcurrent hok
    simp only [Inspector.dequeue] at hx hrt
    cases hqueue : is.queue.dequeue.1 with
    | none =>
      simp only [hx, hqueue, Option.map_none, Outcome.next.injEq] at h
      subst h
      exact ⟨is, _, _, his, hrt, .drained hqueue, .inr ⟨rfl, rfl⟩⟩
    | some e =>
      simp only [hx, hqueue, Option.map_some, Outcome.next.injEq] at h
      subst h
      exact ⟨is, _, _, his, hrt, .dequeue hqueue, .inl ⟨_, rfl, rfl⟩⟩
  | setCurrent x =>
    obtain ⟨⟨_, rt⟩, hok, h⟩ := Outcome.unwrap_eq_next h
    obtain ⟨is, his, _, hrt⟩ := hcurrent hok
    simp only [Outcome.next.injEq] at h
    subst h
    exact ⟨is, _, _, his, hrt, .setCurrent, .inl ⟨_, rfl, rfl⟩⟩
  | clearCurrent x =>
    obtain ⟨⟨_, rt⟩, hok, h⟩ := Outcome.unwrap_eq_next h
    obtain ⟨is, his, _, hrt⟩ := hcurrent hok
    simp only [Outcome.next.injEq] at h
    subst h
    exact ⟨is, _, _, his, hrt, .clearCurrent, .inl ⟨_, rfl, rfl⟩⟩
  | switchTo x =>
    obtain ⟨⟨current, rt⟩, hok, h⟩ := Outcome.unwrap_eq_next h
    obtain ⟨is, his, hb, hrt⟩ := hcurrent hok
    obtain ⟨z, hz, h⟩ := Outcome.unwrap_eq_next h
    simp only [Outcome.next.injEq] at h hz
    subst h
    cases hcur : is.current with
    | error e => simp [hb, hcur] at hz
    | ok y =>
      simp only [hcur] at hb hrt
      obtain ⟨ex, hget, hid, hsame⟩ := Inspector.withExecutor_read rfl (hb ▸ hz)
      rw [hsame] at hrt
      subst hid
      exact ⟨is, _, _, his, hrt, .switchTo hcur hget, .inl ⟨_, rfl, rfl⟩⟩
  | executing x current => simp [inspectorRun] at h
  | testFinished x =>
    obtain ⟨⟨result, rt⟩, hok, h⟩ := Outcome.unwrap_eq_next h
    obtain ⟨is, his, hb, hrt⟩ := hcurrent hok
    obtain ⟨finished, hfinished, h⟩ := Outcome.unwrap_eq_next h
    obtain ⟨ex, hget, hdec, hsame⟩ := Inspector.withExecutor_read rfl (hb ▸ hfinished)
    rw [hsame] at hrt
    by_cases hex : ex.status = .finished
    . simp only [hdec, hex, decide_true, if_true, Outcome.next.injEq] at h
      subst h
      exact ⟨is, _, _, his, hrt, .finished hget hex, .inl ⟨_, rfl, rfl⟩⟩
    . simp only [hdec, hex, decide_false, Bool.false_eq_true, if_false, Outcome.next.injEq] at h
      subst h
      exact ⟨is, _, _, his, hrt, .unfinished hget hex, .inl ⟨_, rfl, rfl⟩⟩
  | unregister x =>
    obtain ⟨⟨result, rt⟩, hok, h⟩ := Outcome.unwrap_eq_next h
    obtain ⟨is, his, hb, hrt⟩ := hcurrent hok
    obtain ⟨is', hresult, h⟩ := Outcome.unwrap_eq_next h
    simp only [Outcome.next.injEq] at h hresult hb
    subst h
    by_cases hmem : x ∈ is.registry
    . simp only [Inspector.unregister, hmem, if_true, Except.toOption, Option.getD_some] at hrt
      exact ⟨is, _, _, his, hrt, .unregister hmem, .inl ⟨_, rfl, rfl⟩⟩
    . simp [hb, Inspector.unregister, hmem] at hresult
  | enqueue x =>
    obtain ⟨⟨result, rt⟩, hok, h⟩ := Outcome.unwrap_eq_next h
    obtain ⟨is, his, hb, hrt⟩ := hcurrent hok
    obtain ⟨is', hresult, h⟩ := Outcome.unwrap_eq_next h
    simp only [Outcome.next.injEq] at h hresult hb
    subst h
    cases hget : is.registry[x]? with
    | some ex =>
      simp only [Inspector.enqueue, hget, Except.toOption, Option.getD_some] at hrt
      exact ⟨is, _, _, his, hrt, .enqueue hget, .inl ⟨_, rfl, rfl⟩⟩
    | none => simp [hb, Inspector.enqueue, hget] at hresult
  | testPending x =>
    obtain ⟨⟨status, rt⟩, hok, h⟩ := Outcome.unwrap_eq_next h
    obtain ⟨is, his, hb, hrt⟩ := hcurrent hok
    simp only at hb
    subst hb
    cases hpending : is.status with
    | pending y =>
      simp only [hpending, Outcome.next.injEq] at h
      subst h
      exact ⟨is, _, _, his, hrt, .switchOut hpending, .inr ⟨rfl, rfl⟩⟩
    | idle | running y =>
      simp only [hpending, Outcome.next.injEq] at h
      subst h
      exact ⟨is, _, _, his, hrt, .again (by simp [hpending]), .inl ⟨_, rfl, rfl⟩⟩

theorem inspectorStep_outside {c c' : Cpu} {id : InspectorId} {is : Inspector}
    (hstep : c.step .run = .next c') (hpc : ∀ mode id p, c.pc ≠ .visit mode id p)
    (hget : c'.rt.registry[id]? = some is)
    : c.rt.registry[id]? = some is ∧
        InspectorStep id is (c.pc.inspectorPc id) .run is (c'.pc.inspectorPc id) := by
  have hnone : c.pc.inspectorPc id = none := by
    unfold RuntimePc.inspectorPc
    split
    . next h => exact absurd h (hpc _ _ _)
    . rfl
  have hsame (h : c'.pc.inspectorPc id = none)
      : InspectorStep id is (c.pc.inspectorPc id) .run is (c'.pc.inspectorPc id) := by
    rw [hnone, h]
    exact .same rfl
  cases Cpu.loopStep hstep with
  | inner ha => exact absurd rfl ha
  | visit _ hfrom _ | visitEnd _ hfrom _ => exact absurd hfrom (hpc _ _ _)
  | jump hrt hjump =>
    refine ⟨by rwa [hrt] at hget, hsame ?_⟩
    cases hpc' : c'.pc with
    | visit mode id' p =>
      rw [hpc'] at hjump
      exact absurd hjump Jump.ne_visit
    | _ => rfl
  | @enter _ mode id' hrt _ hpc' =>
    refine ⟨by rwa [hrt] at hget, ?_⟩
    by_cases hid : id' = id
    . rw [hnone, hpc', RuntimePc.inspectorPc, if_pos hid]
      exact .enter
    . exact hsame (by rw [hpc', RuntimePc.inspectorPc, if_neg hid])
  | unregister hmem hrt _ hpc' =>
    refine ⟨?_, hsame (by rw [hpc']; rfl)⟩
    rw [hrt, ExtTreeMap.getElem?_erase] at hget
    split at hget
    . simp at hget
    . exact hget
  | wake hrt _ hpc' | popFront _ hrt _ hpc' | exitTable hrt _ hpc' | exitQueue hrt _ hpc'
  | pushBack _ hrt _ hpc' | tableNext _ _ hrt _ hpc' | endpoint hrt _ hpc' =>
    exact ⟨by rwa [hrt] at hget, hsame (by rw [hpc']; rfl)⟩

theorem inspectorStep_run {c c' : Cpu} {id : InspectorId} {is' : Inspector} (hcur : c.VisitsCurrent)
    (hstep : c.step .run = .next c') (hget : c'.rt.registry[id]? = some is')
    : ∃ is, c.rt.registry[id]? = some is ∧
        InspectorStep id is (c.pc.inspectorPc id) .run is' (c'.pc.inspectorPc id) := by
  cases hpc : c.pc with
  | visit mode id' p =>
    have hrun : c.inspectorRun mode id' p = .next c' := by simpa only [step, runStep, hpc] using hstep
    obtain ⟨is, is'', p', his, hreg, hinspector, hpc'⟩ := inspectorStep_inspectorRun (hcur _ _ _ hpc) hrun
    rw [hreg] at hget
    rcases Runtime.getElem?_insert_eq_some hget with ⟨rfl, rfl⟩ | ⟨hne, hget⟩
    . refine ⟨is, his, ?_⟩
      rcases hpc' with ⟨q, rfl, hpc'⟩ | ⟨rfl, hpc'⟩
      . simpa [hpc', RuntimePc.inspectorPc] using hinspector
      . simpa [hpc', RuntimePc.inspectorPc] using hinspector
    . refine ⟨is', hget, ?_⟩
      rcases hpc' with ⟨q, rfl, hpc'⟩ | ⟨rfl, hpc'⟩
      all_goals
        simp only [hpc', RuntimePc.inspectorPc, hne.symm, if_false]
        exact .same rfl
  | _ =>
    have hout : ∀ mode id p, c.pc ≠ .visit mode id p := by simp [hpc]
    rw [← hpc]
    obtain ⟨his, hinspector⟩ := inspectorStep_outside hstep hout hget
    exact ⟨is', his, hinspector⟩

theorem inspectorStep_execute {c c' : Cpu} {action : ExecutorAction} {id : InspectorId}
    {is' : Inspector} (hstep : c.step (.execute action) = .next c')
    (hget : c'.rt.registry[id]? = some is')
    : ∃ is, c.rt.registry[id]? = some is ∧
        InspectorStep id is (c.pc.inspectorPc id) (.execute action) is' (c'.pc.inspectorPc id) := by
  simp only [step, execute] at hstep
  split at hstep
  . split at hstep
    . simp at hstep
    . next is his =>
      split at hstep
      . simp at hstep
      . next ex hex =>
        obtain ⟨ex', hstep', rfl⟩ := Outcome.map_eq_next hstep
        rcases Runtime.getElem?_insert_eq_some hget with ⟨rfl, rfl⟩ | ⟨_, hget⟩
        . exact ⟨is, his, .executor trivial hex (Executor.step_id_priority hstep')⟩
        . exact ⟨is', hget, .same trivial⟩
  . simp at hstep

theorem inspectorStep_yield {c c' : Cpu} {id : InspectorId} {is' : Inspector}
    (hcur : c.VisitsCurrent) (hstep : c.step .yield = .next c')
    (hget : c'.rt.registry[id]? = some is')
    : ∃ is, c.rt.registry[id]? = some is ∧
        InspectorStep id is (c.pc.inspectorPc id) .yield is' (c'.pc.inspectorPc id) := by
  simp only [step, yield] at hstep
  split at hstep
  . next mode id' x y hpc =>
    obtain ⟨⟨current, rt⟩, hok, hstep⟩ := Outcome.unwrap_eq_next hstep
    obtain ⟨id'', is, hstatus, his, hcurrent, rfl⟩ := Runtime.withCurrentInspector_eq_ok hok
    rw [hcur _ _ _ hpc, RuntimeStatus.running.injEq] at hstatus
    subst hstatus
    obtain ⟨_, hread, hstep⟩ := Outcome.unwrap_eq_next hstep
    simp only [Outcome.next.injEq] at hstep hread
    subst hstep
    rw [hpc]
    rcases Runtime.getElem?_insert_eq_some hget with ⟨rfl, rfl⟩ | ⟨hne, hget⟩
    . refine ⟨is, his, ?_⟩
      cases hcur : is.current with
      | error e => simp [hcurrent, hcur] at hread
      | ok z =>
        simp only [hcur] at hcurrent ⊢
        obtain ⟨_, _, _, hsame⟩ := Inspector.withExecutor_read rfl (hcurrent ▸ hread)
        rw [hsame]
        simp only [RuntimePc.inspectorPc, if_true]
        exact .yield
    . refine ⟨is', hget, ?_⟩
      simp only [RuntimePc.inspectorPc, hne.symm, if_false]
      exact .same trivial
  . simp at hstep

def Registers (c : Cpu) (a : CpuAction) (id : InspectorId) (is : Inspector) : Prop :=
  id ∉ c.rt.registry ∧
    ∃ rootExecutor others, a = .op (.register id rootExecutor others) ∧ is = .new id rootExecutor others

theorem inspectorStep_tryInspector {rt : Runtime} {pc : Option InspectorPc} {id id' : InspectorId}
    {is' : Inspector} {a : CpuAction} {f : Inspector → Except InternalError Inspector}
    (hget : (rt.tryInspector id' f).registry[id]? = some is')
    (hstep : ∀ is, id = id' → InspectorStep id is pc a ((f is).toOption.getD is) pc)
    (hother : ∀ is, id ≠ id' → InspectorStep id is pc a is pc)
    : ∃ is, rt.registry[id]? = some is ∧ InspectorStep id is pc a is' pc := by
  obtain ⟨is, his, ⟨hid, rfl⟩ | ⟨hne, rfl⟩⟩ := Runtime.tryInspector_getElem? hget
  . exact ⟨is, his, hstep is hid⟩
  . exact ⟨is', his, hother is' hne⟩

theorem inspectorStep_op {c c' : Cpu} {op : RuntimeOp} {id : InspectorId} {is' : Inspector}
    (hstep : c.step (.op op) = .next c') (hget : c'.rt.registry[id]? = some is')
    : c.Registers (.op op) id is' ∨
      ∃ is, c.rt.registry[id]? = some is ∧
        InspectorStep id is (c.pc.inspectorPc id) (.op op) is' (c'.pc.inspectorPc id) := by
  simp only [step, Outcome.next.injEq] at hstep
  subst hstep
  cases op with
  | register id' rootExecutor others =>
    simp only [Runtime.applyOp, Runtime.register, Inspector.new_id] at hget
    split at hget
    . exact .inr ⟨is', hget, .same trivial⟩
    . next hmem =>
      simp only [Except.toOption, Option.getD_some] at hget
      rcases Runtime.getElem?_insert_eq_some hget with ⟨rfl, rfl⟩ | ⟨_, hget⟩
      . exact .inl ⟨hmem, _, _, rfl, rfl⟩
      . exact .inr ⟨is', hget, .same trivial⟩
  | unregister id' =>
    simp only [Runtime.applyOp, Runtime.unregister] at hget
    split at hget
    . simp only [Except.toOption, Option.getD_some, ExtTreeMap.getElem?_erase] at hget
      split at hget
      . simp at hget
      . exact .inr ⟨is', hget, .same trivial⟩
    . exact .inr ⟨is', hget, .same trivial⟩
  | enactSchedTable schedTable =>
    simp only [Runtime.applyOp, Runtime.enactSchedTable] at hget
    refine .inr ⟨is', ?_, .same trivial⟩
    split at hget <;> simpa [Except.toOption] using hget
  | revokeSchedTable =>
    simp only [Runtime.applyOp, Runtime.revokeSchedTable] at hget
    refine .inr ⟨is', ?_, .same trivial⟩
    split at hget <;> simpa [Except.toOption] using hget
  | registerExecutor id' ex =>
    refine .inr (inspectorStep_tryInspector hget ?_ ?other)
    case other => exact fun is hne => .same (fun hid => absurd hid.symm hne)
    rintro is rfl
    unfold Inspector.register
    split
    . next hmem => exact .same (fun _ => hmem)
    . next hnew => exact .opRegister hnew
  | unregisterExecutor id' x =>
    refine .inr (inspectorStep_tryInspector hget ?_ ?other)
    case other => exact fun is hne => .same (fun hid => absurd hid.symm hne)
    rintro is rfl
    unfold Inspector.unregister
    split
    . next hmem => exact .opUnregister hmem
    . next hmem => exact .same (fun _ => hmem)
  | markPending id' =>
    refine .inr (inspectorStep_tryInspector hget ?_ ?other)
    case other => exact fun is hne => .same (fun hid => absurd hid.symm hne)
    rintro is rfl
    unfold Inspector.markPending
    split
    . next hidle => exact .same (fun _ => hidle)
    . next x hrunning => exact .opMarkPending (.inl hrunning)
    . next x hpending =>
      have hsame : is = { is with status := .pending x } := by rw [← hpending]
      have := @InspectorStep.opMarkPending id is (c.pc.inspectorPc id) x (.inr hpending)
      rwa [← hsame] at this
  | wake id' x waker =>
    refine .inr (inspectorStep_tryInspector hget ?_ (fun is hne => .same trivial))
    rintro is rfl
    simp only [Except.toOption, Option.getD_some]
    unfold Inspector.withExecutor
    split
    . next ex hex => exact .executor trivial hex ⟨rfl, rfl⟩
    . exact .same trivial

theorem inspectorStep {c c' : Cpu} {a : CpuAction} {id : InspectorId} {is' : Inspector}
    (hcur : c.VisitsCurrent) (hstep : c.step a = .next c') (hget : c'.rt.registry[id]? = some is')
    : c.Registers a id is' ∨
      ∃ is, c.rt.registry[id]? = some is ∧
        InspectorStep id is (c.pc.inspectorPc id) a is' (c'.pc.inspectorPc id) := by
  cases a with
  | run => exact .inr (inspectorStep_run hcur hstep hget)
  | execute action => exact .inr (inspectorStep_execute hstep hget)
  | yield => exact .inr (inspectorStep_yield hcur hstep hget)
  | op op => exact inspectorStep_op hstep hget
  | startTable now =>
    simp only [step] at hstep
    split at hstep
    . next hpc =>
      obtain ⟨rt, hok, hstep⟩ := Outcome.unwrap_eq_next hstep
      simp only [Runtime.schedTableStart] at hok
      split at hok
      . simp only [Except.ok.injEq, Outcome.next.injEq] at hok hstep
        subst hok hstep
        rw [hpc]
        exact .inr ⟨is', hget, .same trivial⟩
      . simp at hok
    . simp at hstep
  | stayAwake target =>
    simp only [step] at hstep
    split at hstep
    . next hpc =>
      simp only [Outcome.next.injEq] at hstep
      subst hstep
      rw [hpc]
      exact .inr ⟨is', hget, .same trivial⟩
    . simp at hstep
  | receiveIpi =>
    simp only [step, Outcome.next.injEq] at hstep
    subst hstep
    exact .inr ⟨is', hget, .same trivial⟩
  | softInt =>
    obtain ⟨_, _, hrt, ⟨hpc, _⟩ | ⟨hpc, hpc'⟩⟩ := step_softInt_cases hstep
    . rw [hpc]
      exact .inr ⟨is', by rwa [hrt] at hget, .same trivial⟩
    . rw [hpc, hpc']
      exact .inr ⟨is', by rwa [hrt] at hget, .same trivial⟩
  | wakeUp =>
    simp only [step] at hstep
    split at hstep
    . next hpc =>
      simp only [Outcome.next.injEq] at hstep
      subst hstep
      rw [hpc]
      exact .inr ⟨is', hget, .same trivial⟩
    . simp at hstep

end Cpu

theorem mem_registry_of_visit {c c' : Cpu} {a : CpuAction} {mode : VisitMode} {id : InspectorId}
    {p : InspectorPc} (hcur : c.VisitsCurrent) (hpc : c.pc = .visit mode id p)
    (hstep : c.step a = .next c') (hne : c'.pc ≠ c.pc)
    : id ∈ c.rt.registry := by
  cases a with
  | run =>
    have hrun : c.inspectorRun mode id p = .next c' := by
      simpa only [Cpu.step, Cpu.runStep, hpc] using hstep
    obtain ⟨is, _, _, his, _⟩ := Cpu.inspectorStep_inspectorRun (hcur _ _ _ hpc) hrun
    exact ExtTreeMap.mem_iff_isSome_getElem?.mpr (by simp [his])
  | yield =>
    simp only [Cpu.step, Cpu.yield] at hstep
    split at hstep
    . obtain ⟨⟨_, rt⟩, hok, _⟩ := Outcome.unwrap_eq_next hstep
      obtain ⟨id', is, hstatus, his, _⟩ := Runtime.withCurrentInspector_eq_ok hok
      rw [hcur _ _ _ hpc, RuntimeStatus.running.injEq] at hstatus
      subst hstatus
      exact ExtTreeMap.mem_iff_isSome_getElem?.mpr (by simp [his])
    . simp at hstep
  | softInt =>
    obtain ⟨_, _, _, ⟨hsame, _⟩ | ⟨hasleep, _⟩⟩ := Cpu.step_softInt_cases hstep
    . exact absurd hsame hne
    . simp [hpc] at hasleep
  | op op =>
    simp only [Cpu.step, Outcome.next.injEq] at hstep
    subst hstep
    exact absurd rfl hne
  | receiveIpi =>
    simp only [Cpu.step, Outcome.next.injEq] at hstep
    subst hstep
    exact absurd rfl hne
  | execute action => exact absurd (Cpu.step_execute_pc hstep) hne
  | startTable now | stayAwake target | wakeUp => simp [Cpu.step, hpc] at hstep

end Jrinx
