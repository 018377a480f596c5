import Jrinx.Driver.EnableBits
import Jrinx.Driver.IrqDispatch
import Jrinx.Trap.IrqSafety

/-!
This module contains what the steps of the strategies do to the enable bits of the interrupt controller: on
which CPUs a source is enabled, and that nothing else changes.
-/

namespace Jrinx

theorem getContextId_zero {root : RootCompatible}
    : (∃ contextId, getContextId root 0 = .ok contextId) ↔ root = .riscvVirtio := by
  simp [IrqSystem.getContextId_isOk]

theorem getContextId_le {root : RootCompatible} {cpuId contextId : Nat}
    (h : getContextId root cpuId = .ok contextId)
    : contextId ≤ 2 * cpuId + 1 := by
  cases root with
  | riscvVirtio =>
    cases h
    omega
  | sifive =>
    simp only [getContextId] at h
    split at h
    . cases h
    . cases h
      omega
  | other => cases h

theorem getContextId_inj {root : RootCompatible} {cpuId cpuId' contextId : Nat}
    (h : getContextId root cpuId = .ok contextId) (h' : getContextId root cpuId' = .ok contextId)
    : cpuId = cpuId' := by
  cases root with
  | riscvVirtio =>
    cases h
    have := Except.pure_eq_ok_iff.mp h'
    omega
  | sifive =>
    simp only [getContextId] at h h'
    split at h
    . cases h
    . split at h'
      . cases h'
      . cases h
        have := Except.pure_eq_ok_iff.mp h'
        omega
  | other => cases h

namespace IrqSystem

variable {sys sys' : IrqSystem} {cpuId irqNum : Nat}

def EnabledOn (sys : IrqSystem) (cpuId irqNum : Nat) : Prop :=
  ∃ plic contextId, sys.plic = some plic ∧ getContextId sys.rootCompatible cpuId = .ok contextId ∧
    (plic.regs (Plic.enableWord contextId irqNum)).getLsbD (irqNum % 32) = true

theorem enable_eq_ok_iff
    : sys.enable cpuId irqNum = .ok sys' ↔
        ∃ plic contextId, sys.plic = some plic ∧ getContextId sys.rootCompatible cpuId = .ok contextId ∧
          (sys.mode = .debug → Plic.isValid irqNum) ∧
          sys' =
            {
              sys with
              plic := some
                ((plic.write (Plic.enableWord contextId irqNum)
                  (1#32 <<< (irqNum % 32) ||| plic.regs (Plic.enableWord contextId irqNum))).setThreshold
                    contextId 0)
              sources := irqNum :: sys.sources
            } := by
  unfold enable Plic.enable
  simp only [Except.bind_eq_ok_iff, Except.pure_eq_ok_iff, IrqM.unwrap_eq_ok_iff]
  constructor
  . rintro ⟨plic, hplic, plic', ⟨contextId, hcontext, _, hassert, rfl⟩, rfl⟩
    exact ⟨plic, contextId, hplic, hcontext, BuildMode.debugAssert_eq_ok_iff.mp hassert, rfl⟩
  . rintro ⟨plic, contextId, hplic, hcontext, hassert, rfl⟩
    exact ⟨plic, hplic, _, ⟨contextId, hcontext, (), BuildMode.debugAssert_eq_ok_iff.mpr hassert, rfl⟩, rfl⟩

theorem disable_eq_ok_iff
    : sys.disable cpuId irqNum = .ok sys' ↔
        ∃ plic contextId, sys.plic = some plic ∧ getContextId sys.rootCompatible cpuId = .ok contextId ∧
          (sys.mode = .debug → Plic.isValid irqNum) ∧
          sys' =
            {
              sys with
              plic := some
                (plic.write (Plic.enableWord contextId irqNum)
                  (~~~(1#32 <<< (irqNum % 32)) &&& plic.regs (Plic.enableWord contextId irqNum)))
            } := by
  unfold disable Plic.disable
  simp only [Except.bind_eq_ok_iff, Except.pure_eq_ok_iff, IrqM.unwrap_eq_ok_iff]
  constructor
  . rintro ⟨plic, hplic, plic', ⟨contextId, hcontext, _, hassert, rfl⟩, rfl⟩
    exact ⟨plic, contextId, hplic, hcontext, BuildMode.debugAssert_eq_ok_iff.mp hassert, rfl⟩
  . rintro ⟨plic, contextId, hplic, hcontext, hassert, rfl⟩
    exact ⟨plic, hplic, _, ⟨contextId, hcontext, (), BuildMode.debugAssert_eq_ok_iff.mpr hassert, rfl⟩, rfl⟩

theorem disable_of_plic {plic : Plic} {contextId : Nat} (hplic : sys.plic = some plic)
    (hcontext : getContextId sys.rootCompatible cpuId = .ok contextId) (hirq : Plic.isValid irqNum)
    : ∃ sys', sys.disable cpuId irqNum = .ok sys' ∧ sys'.plic.isSome ∧
        sys'.rootCompatible = sys.rootCompatible :=
  ⟨_, disable_eq_ok_iff.mpr ⟨plic, contextId, hplic, hcontext, fun _ => hirq, rfl⟩, rfl, rfl⟩

theorem enable_of_plic {plic : Plic} {contextId : Nat} (hplic : sys.plic = some plic)
    (hcontext : getContextId sys.rootCompatible cpuId = .ok contextId) (hirq : Plic.isValid irqNum)
    : ∃ sys', sys.enable cpuId irqNum = .ok sys' ∧ sys'.plic.isSome ∧
        sys'.rootCompatible = sys.rootCompatible :=
  ⟨_, enable_eq_ok_iff.mpr ⟨plic, contextId, hplic, hcontext, fun _ => hirq, rfl⟩, rfl, rfl⟩

theorem enableWord_eq_iff {root : RootCompatible} {c i contextId contextId' : Nat} (hi : Plic.isValid i)
    (hirq : Plic.isValid irqNum) (hc : getContextId root c = .ok contextId)
    (hcpu : getContextId root cpuId = .ok contextId')
    : Plic.enableWord contextId i = Plic.enableWord contextId' irqNum ∧ i % 32 = irqNum % 32 ↔
        c = cpuId ∧ i = irqNum := by
  simp only [Plic.enableWord, Plic.isValid, Plic.irqRange] at *
  constructor
  . rintro ⟨hword, hmod⟩
    have hcontext : contextId = contextId' := by
      omega
    subst hcontext
    exact ⟨getContextId_inj hc hcpu, by omega⟩
  . rintro ⟨rfl, rfl⟩
    cases hc.symm.trans hcpu
    exact ⟨rfl, rfl⟩

theorem enableWord_ne {contextId contextId' i : Nat} (hle : contextId ≤ PlicOffset.maxContext)
    (hi : Plic.isValid i)
    : Plic.enableWord contextId i ≠ Plic.thresholdWord contextId' := by
  simp only [Plic.enableWord, Plic.thresholdWord, PlicOffset.maxContext, Plic.isValid, Plic.irqRange] at *
  omega

theorem enabledOn_iff {plic : Plic} {contextId : Nat} (hplic : sys.plic = some plic)
    (hcontext : getContextId sys.rootCompatible cpuId = .ok contextId)
    : sys.EnabledOn cpuId irqNum ↔
        (plic.regs (Plic.enableWord contextId irqNum)).getLsbD (irqNum % 32) = true := by
  constructor
  . rintro ⟨plic', contextId', hplic', hcontext', hbit⟩
    cases hplic.symm.trans hplic'
    cases hcontext.symm.trans hcontext'
    exact hbit
  . exact fun hbit => ⟨plic, contextId, hplic, hcontext, hbit⟩

theorem enabledOn_update {c i contextId : Nat} {plic plic' : Plic} {sources : List Nat} {b : Bool}
    (hc : c < cpuCount) (hplic : sys.plic = some plic)
    (hcontext : getContextId sys.rootCompatible cpuId = .ok contextId)
    (hsys' : sys' = { sys with plic := some plic', sources })
    (hbit : ∀ contextId' ≤ PlicOffset.maxContext,
      (plic'.regs (Plic.enableWord contextId' i)).getLsbD (i % 32) =
        if Plic.enableWord contextId' i = Plic.enableWord contextId irqNum ∧ i % 32 = irqNum % 32 then b
        else (plic.regs (Plic.enableWord contextId' i)).getLsbD (i % 32))
    (hi : Plic.isValid i) (hirq : Plic.isValid irqNum)
    : sys'.EnabledOn c i ↔ if c = cpuId ∧ i = irqNum then b = true else sys.EnabledOn c i := by
  have hplic' : sys'.plic = some plic' := by
    rw [hsys']
  have hroot : sys'.rootCompatible = sys.rootCompatible := by
    rw [hsys']
  by_cases hexists : ∃ contextId', getContextId sys.rootCompatible c = .ok contextId'
  . obtain ⟨contextId', hcontext'⟩ := hexists
    have hle : contextId' ≤ PlicOffset.maxContext := by
      have := getContextId_le hcontext'
      simp only [cpuCount, PlicOffset.maxContext] at *
      omega
    rw [enabledOn_iff hplic' (hroot ▸ hcontext'), enabledOn_iff hplic hcontext', hbit contextId' hle]
    simp only [enableWord_eq_iff hi hirq hcontext' hcontext]
    split <;> rfl
  . have hne : ¬ (c = cpuId ∧ i = irqNum) := by
      rintro ⟨rfl, _⟩
      exact hexists ⟨contextId, hcontext⟩
    rw [if_neg hne]
    constructor
    . rintro ⟨_, contextId', _, hcontext', _⟩
      rw [hroot] at hcontext'
      exact (hexists ⟨contextId', hcontext'⟩).elim
    . rintro ⟨_, contextId', _, hcontext', _⟩
      exact (hexists ⟨contextId', hcontext'⟩).elim

theorem enabledOn_enable (h : sys.enable cpuId irqNum = .ok sys') {c i : Nat} (hc : c < cpuCount)
    (hi : Plic.isValid i) (hirq : Plic.isValid irqNum)
    : sys'.EnabledOn c i ↔ sys.EnabledOn c i ∨ c = cpuId ∧ i = irqNum := by
  obtain ⟨plic, contextId, hplic, hcontext, _, hsys'⟩ := enable_eq_ok_iff.mp h
  rw [enabledOn_update (b := true) hc hplic hcontext hsys' ?_ hi hirq]
  . split
    . next heq => simp [heq]
    . next hne => simp [hne]
  . intro contextId' hle
    simp only [Plic.setThreshold, Plic.write]
    rw [Function.update_of_ne (enableWord_ne hle hi), Function.update_apply]
    by_cases hword : Plic.enableWord contextId' i = Plic.enableWord contextId irqNum
    . simp only [hword, if_true, true_and, getLsbD_or_one _ (Nat.mod_lt irqNum (by decide : 32 > 0))]
    . simp only [hword, if_false, false_and]

theorem enabledOn_disable (h : sys.disable cpuId irqNum = .ok sys') {c i : Nat} (hc : c < cpuCount)
    (hi : Plic.isValid i) (hirq : Plic.isValid irqNum)
    : sys'.EnabledOn c i ↔ sys.EnabledOn c i ∧ ¬ (c = cpuId ∧ i = irqNum) := by
  obtain ⟨plic, contextId, hplic, hcontext, _, hsys'⟩ := disable_eq_ok_iff.mp h
  rw [enabledOn_update (b := false) hc hplic hcontext hsys' ?_ hi hirq]
  . split
    . next heq => simp [heq]
    . next hne => simp [hne]
  . intro contextId' hle
    simp only [Plic.write]
    rw [Function.update_apply]
    by_cases hword : Plic.enableWord contextId' i = Plic.enableWord contextId irqNum
    . simp only [hword, if_true, true_and, getLsbD_and_not_one _ (Nat.mod_lt irqNum (by decide : 32 > 0))]
    . simp only [hword, if_false, false_and]

end IrqSystem

namespace DispatchM

variable {α β : Type} {s s' : DispatchSystem}

theorem bind_eq_ok_iff {x : DispatchM α} {f : α → DispatchM β} {b : β}
    : (x >>= f).run s = .ok b s' ↔ ∃ a s₁, x.run s = .ok a s₁ ∧ (f a).run s₁ = .ok b s' := by
  rw [EStateM.run_bind]
  cases x.run s with
  | ok a s₁ =>
    constructor
    . exact fun h => ⟨a, s₁, rfl, h⟩
    . rintro ⟨_, _, ⟨⟩, h⟩
      exact h
  | error e s₁ =>
    constructor
    . intro h
      cases h
    . rintro ⟨_, _, ⟨⟩, _⟩

theorem run_bind_ok {x : DispatchM α} {f : α → DispatchM β} {a : α} (h : x.run s = .ok a s')
    : (x >>= f).run s = (f a).run s' := by
  rw [EStateM.run_bind, h]

theorem pure_eq_ok_iff {a b : α} : (pure a : DispatchM α).run s = .ok b s' ↔ a = b ∧ s' = s := by
  rw [EStateM.run_pure, EStateM.Result.ok.injEq, eq_comm (a := s)]

theorem get_eq_ok_iff {s₁ : DispatchSystem} : (get : DispatchM DispatchSystem).run s = .ok s₁ s' ↔ s₁ = s ∧ s' = s := by
  rw [EStateM.run_get, EStateM.Result.ok.injEq, eq_comm (a := s), eq_comm (a := s)]

theorem set_eq_ok_iff {s₁ : DispatchSystem} {u : Unit} : (set s₁ : DispatchM Unit).run s = .ok u s' ↔ s' = s₁ := by
  rw [EStateM.run_set, EStateM.Result.ok.injEq, eq_comm (a := s₁)]
  simp

theorem ofIrq_eq_ok_iff {m : IrqM α} {a : α} : (ofIrq m).run s = .ok a s' ↔ m = .ok a ∧ s' = s := by
  cases m with
  | ok b => rw [ofIrq, pure_eq_ok_iff, Except.ok.injEq]
  | error e =>
    constructor
    . intro h
      cases h
    . rintro ⟨⟨⟩, _⟩

theorem index_eq_ok_iff {l : List α} {i : Nat} {a : α}
    : (index l i).run s = .ok a s' ↔ l[i]? = some a ∧ s' = s := by
  unfold index
  cases l[i]? with
  | some b => rw [pure_eq_ok_iff, Option.some.injEq]
  | none =>
    constructor
    . intro h
      cases h
    . rintro ⟨⟨⟩, _⟩

theorem modifyIrq_eq_ok_iff {f : IrqSystem → IrqM IrqSystem} {u : Unit}
    : (modifyIrq f).run s = .ok u s' ↔ ∃ irq, f s.irq = .ok irq ∧ s' = { s with irq } := by
  simp only [modifyIrq, bind_eq_ok_iff, get_eq_ok_iff, ofIrq_eq_ok_iff, set_eq_ok_iff]
  constructor
  . rintro ⟨_, _, ⟨rfl, rfl⟩, irq, _, ⟨hirq, rfl⟩, rfl⟩
    exact ⟨irq, hirq, rfl⟩
  . rintro ⟨irq, hirq, rfl⟩
    exact ⟨s, s, ⟨rfl, rfl⟩, irq, s, ⟨hirq, rfl⟩, rfl⟩

theorem takeCount_eq_ok_iff {irqNum : Nat} {count : Int}
    : (takeCount irqNum).run s = .ok count s' ↔
        s.irq.irqCount irqNum = some count ∧
          s' = { s with irq := { s.irq with irqCount := Function.update s.irq.irqCount irqNum (some 0) } } := by
  simp only [takeCount, bind_eq_ok_iff, get_eq_ok_iff, ofIrq_eq_ok_iff, modifyIrq_eq_ok_iff, pure_eq_ok_iff,
    IrqSystem.resetCount, Except.bind_eq_ok_iff, Except.pure_eq_ok_iff, IrqM.unwrap_eq_ok_iff]
  constructor
  . rintro ⟨_, _, ⟨rfl, rfl⟩, _, _, ⟨hcount, rfl⟩, _, _, ⟨_, ⟨_, _, rfl⟩, rfl⟩, rfl, rfl⟩
    exact ⟨hcount, rfl⟩
  . rintro ⟨hcount, rfl⟩
    exact ⟨s, s, ⟨rfl, rfl⟩, count, s, ⟨hcount, rfl⟩, (), _, ⟨_, ⟨count, hcount, rfl⟩, rfl⟩, rfl, rfl⟩

end DispatchM

namespace IrqDispatch

open DispatchM

variable {s s' : DispatchSystem}

theorem route_eq_ok_iff {cpus : List (Nat × Nat)} {irqNum irqNum' : Nat} {u : Unit}
    : (route cpus irqNum irqNum').run s = .ok u s' ↔
        ∃ a b irq irq', cpus[0]? = some a ∧ cpus[1]? = some b ∧ s.irq.enable a.1 irqNum = .ok irq ∧
          irq.enable b.1 irqNum' = .ok irq' ∧ s' = { s with irq := irq' } := by
  simp only [route, enable, bind_eq_ok_iff, index_eq_ok_iff, modifyIrq_eq_ok_iff]
  constructor
  . rintro ⟨a, _, ⟨ha, rfl⟩, _, _, ⟨irq, henable, rfl⟩, b, _, ⟨hb, rfl⟩, irq', henable', rfl⟩
    exact ⟨a, b, irq, irq', ha, hb, henable, henable', rfl⟩
  . rintro ⟨a, b, irq, irq', ha, hb, henable, henable', rfl⟩
    exact ⟨a, s, ⟨ha, rfl⟩, (), _, ⟨irq, henable, rfl⟩, b, _, ⟨hb, rfl⟩, irq', henable', rfl⟩

theorem exists_add_timeInterval {freq ticks : Nat}
    : ∃ time, (Cpu.getTime freq ticks).add (.fromNanos (timeInterval * 10 ^ 9)) = some time := by
  have hlt : (Cpu.getTime freq ticks).nanos < 2 ^ 64 := by
    unfold Cpu.getTime
    split
    . exact Nat.lt_of_le_of_lt (Nat.div_le_self _ _) (Nat.mod_lt _ (by decide))
    . decide
  rw [Duration.add, dif_pos]
  . exact ⟨_, rfl⟩
  . simp only [Duration.fromNanos, timeInterval]
    omega

theorem createEvent_eq_ok_iff {timeout : DispatchClosure} {cpuId ticks : Nat} {u : Unit}
    : (createEvent timeout cpuId ticks).run s = .ok u s' ↔
        s.irq.NoOverflow ticks ∧
          ∃ time, (s.irq.time ticks).add (.fromNanos (timeInterval * 10 ^ 9)) = some time ∧
            s' = { s with timedEvents := s.timedEvents.create cpuId time { timeout, cancel := .cancel } } := by
  simp only [createEvent, bind_eq_ok_iff, get_eq_ok_iff, ofIrq_eq_ok_iff, BuildMode.getTime_eq_ok_iff]
  constructor
  . rintro ⟨_, _, ⟨rfl, rfl⟩, now, _, ⟨⟨hticks, rfl⟩, rfl⟩, h⟩
    refine ⟨hticks, ?_⟩
    split at h
    . next time hadd => exact ⟨time, hadd, set_eq_ok_iff.mp h⟩
    . cases h
  . rintro ⟨hticks, time, hadd, rfl⟩
    refine ⟨s, s, ⟨rfl, rfl⟩, _, s, ⟨⟨hticks, rfl⟩, rfl⟩, ?_⟩
    rw [IrqSystem.time] at hadd
    simp only [hadd]
    exact set_eq_ok_iff.mpr rfl

theorem createEvent_isOk {timeout : DispatchClosure} {cpuId ticks : Nat}
    : (∃ s', (createEvent timeout cpuId ticks).run s = .ok () s') ↔ s.irq.NoOverflow ticks := by
  constructor
  . rintro ⟨s', h⟩
    exact (createEvent_eq_ok_iff.mp h).1
  . intro hclock
    obtain ⟨time, htime⟩ : ∃ time, (s.irq.time ticks).add _ = some time := exists_add_timeInterval
    exact ⟨_, createEvent_eq_ok_iff.mpr ⟨hclock, time, htime, rfl⟩⟩

def SameButPlic (s s' : DispatchSystem) : Prop := ∃ plic, s' = { s with irq := { s.irq with plic } }

theorem SameButPlic.trans {s'' : DispatchSystem} (h : SameButPlic s s') (h' : SameButPlic s' s'')
    : SameButPlic s s'' := by
  obtain ⟨plic, rfl⟩ := h
  obtain ⟨plic', rfl⟩ := h'
  exact ⟨plic', rfl⟩

theorem SameButPlic.taskPriority (h : SameButPlic s s') (cpuId : Nat)
    : s'.taskPriority cpuId = s.taskPriority cpuId := by
  obtain ⟨_, rfl⟩ := h
  rfl

theorem readPriority_run (l : List (Nat × Nat)) (cpuId : Nat)
    : (readPriority l cpuId).run s = .ok (l ++ ((s.taskPriority cpuId).map (cpuId, ·)).toList) s := by
  simp only [readPriority, bind_eq_ok_iff, get_eq_ok_iff]
  refine ⟨s, s, ⟨rfl, rfl⟩, ?_⟩
  cases s.taskPriority cpuId with
  | some priority => rfl
  | none => exact pure_eq_ok_iff.mpr ⟨(List.append_nil l).symm, rfl⟩

/--
On these CPUs both sources are disabled, and nothing else is.
-/
structure Disabled (s : DispatchSystem) (cpus : List Nat) (s' : DispatchSystem) : Prop where
  frame : SameButPlic s s'
  enabledOn : ∀ c < IrqSystem.cpuCount, ∀ i, Plic.isValid i →
    (s'.irq.EnabledOn c i ↔ s.irq.EnabledOn c i ∧ ¬ (c ∈ cpus ∧ (i = 8 ∨ i = 10)))

theorem disableBoth_eq_ok_iff {cpuId : Nat} {u : Unit}
    : (disableBoth cpuId).run s = .ok u s' ↔
        ∃ irq irq', s.irq.disable cpuId 10 = .ok irq ∧ irq.disable cpuId 8 = .ok irq' ∧
          s' = { s with irq := irq' } := by
  simp only [disableBoth, disable, bind_eq_ok_iff, modifyIrq_eq_ok_iff]
  constructor
  . rintro ⟨_, _, ⟨irq, h, rfl⟩, irq', h', rfl⟩
    exact ⟨irq, irq', h, h', rfl⟩
  . rintro ⟨irq, irq', h, h', rfl⟩
    exact ⟨(), _, ⟨irq, h, rfl⟩, irq', h', rfl⟩

theorem disabled_of_disableBoth {cpuId : Nat} {u : Unit} (h : (disableBoth cpuId).run s = .ok u s')
    : Disabled s [cpuId] s' := by
  obtain ⟨irq, irq', huart, hnet, rfl⟩ := disableBoth_eq_ok_iff.mp h
  constructor
  case frame =>
    obtain ⟨_, _, _, _, _, rfl⟩ := IrqSystem.disable_eq_ok_iff.mp huart
    obtain ⟨_, _, _, _, _, rfl⟩ := IrqSystem.disable_eq_ok_iff.mp hnet
    exact ⟨_, rfl⟩
  case enabledOn =>
    intro c hc i hi
    rw [IrqSystem.enabledOn_disable hnet hc hi (by decide), IrqSystem.enabledOn_disable huart hc hi (by decide),
      List.mem_singleton]
    tauto

theorem disableBoth_isOk {cpuId : Nat}
    : (∃ s', (disableBoth cpuId).run s = .ok () s') ↔
        s.irq.plic.isSome ∧ ∃ contextId, getContextId s.irq.rootCompatible cpuId = .ok contextId := by
  constructor
  . rintro ⟨s', h⟩
    obtain ⟨irq, irq', huart, _, _⟩ := disableBoth_eq_ok_iff.mp h
    obtain ⟨plic, contextId, hplic, hcontext, _⟩ := IrqSystem.disable_eq_ok_iff.mp huart
    exact ⟨Option.isSome_iff_exists.mpr ⟨plic, hplic⟩, contextId, hcontext⟩
  . rintro ⟨hplic, contextId, hcontext⟩
    obtain ⟨plic, hplic⟩ := Option.isSome_iff_exists.mp hplic
    have hvalid : Plic.isValid 10 ∧ Plic.isValid 8 := by decide
    obtain ⟨irq, huart, hplic', hroot⟩ := IrqSystem.disable_of_plic hplic hcontext hvalid.1
    obtain ⟨plic', hplic'⟩ := Option.isSome_iff_exists.mp hplic'
    obtain ⟨irq', hnet, _⟩ := IrqSystem.disable_of_plic hplic' (hroot ▸ hcontext) hvalid.2
    exact ⟨_, disableBoth_eq_ok_iff.mpr ⟨irq, irq', huart, hnet, rfl⟩⟩

theorem Disabled.cons {s'' : DispatchSystem} {cpuId : Nat} {cpus : List Nat} (h : Disabled s [cpuId] s')
    (h' : Disabled s' cpus s'')
    : Disabled s (cpuId :: cpus) s'' := by
  refine ⟨h.frame.trans h'.frame, fun c hc i hi => ?_⟩
  rw [h'.enabledOn c hc i hi, h.enabledOn c hc i hi, List.mem_singleton, List.mem_cons]
  tauto

theorem disabled_of_forM {cpus : List Nat} {u : Unit} (h : (cpus.forM disableBoth).run s = .ok u s')
    : Disabled s cpus s' := by
  induction cpus generalizing s with
  | nil =>
    obtain ⟨_, rfl⟩ := pure_eq_ok_iff.mp h
    exact ⟨⟨_, rfl⟩, fun _ _ _ _ => by simp⟩
  | cons cpuId cpus ih =>
    obtain ⟨_, s₁, hfirst, hrest⟩ := bind_eq_ok_iff.mp h
    exact (disabled_of_disableBoth hfirst).cons (ih hrest)

theorem plic_of_disableBoth {cpuId : Nat} {u : Unit} (h : (disableBoth cpuId).run s = .ok u s')
    : s'.irq.plic.isSome ∧ s'.irq.rootCompatible = s.irq.rootCompatible := by
  obtain ⟨irq, irq', huart, hnet, rfl⟩ := disableBoth_eq_ok_iff.mp h
  obtain ⟨_, _, _, _, _, rfl⟩ := IrqSystem.disable_eq_ok_iff.mp huart
  obtain ⟨_, _, _, _, _, rfl⟩ := IrqSystem.disable_eq_ok_iff.mp hnet
  exact ⟨rfl, rfl⟩

theorem plic_of_forM {cpus : List Nat} {u : Unit} (hplic : s.irq.plic.isSome)
    (h : (cpus.forM disableBoth).run s = .ok u s')
    : s'.irq.plic.isSome ∧ s'.irq.rootCompatible = s.irq.rootCompatible := by
  induction cpus generalizing s with
  | nil =>
    obtain ⟨_, rfl⟩ := pure_eq_ok_iff.mp h
    exact ⟨hplic, rfl⟩
  | cons cpuId cpus ih =>
    obtain ⟨_, s₁, hfirst, hrest⟩ := bind_eq_ok_iff.mp h
    obtain ⟨hplic₁, hroot₁⟩ := plic_of_disableBoth hfirst
    obtain ⟨hplic', hroot'⟩ := ih hplic₁ hrest
    exact ⟨hplic', hroot'.trans hroot₁⟩

theorem forM_isOk (hplic : s.irq.plic.isSome)
    : (∃ s', ((List.range IrqSystem.cpuCount).forM disableBoth).run s = .ok () s') ↔
        s.irq.rootCompatible = .riscvVirtio := by
  constructor
  . rintro ⟨s', h⟩
    obtain ⟨_, s₁, hfirst, _⟩ := bind_eq_ok_iff.mp h
    exact getContextId_zero.mp (disableBoth_isOk.mp ⟨s₁, hfirst⟩).2
  . intro hroot
    have hall (cpus : List Nat) (s : DispatchSystem) (hplic : s.irq.plic.isSome)
        (hroot : s.irq.rootCompatible = .riscvVirtio)
        : ∃ s', (cpus.forM disableBoth).run s = .ok () s' := by
      induction cpus generalizing s with
      | nil => exact ⟨s, rfl⟩
      | cons cpuId cpus ih =>
        obtain ⟨s₁, hfirst⟩ := disableBoth_isOk.mpr ⟨hplic, IrqSystem.getContextId_isOk.mpr (.inl hroot)⟩
        obtain ⟨hplic₁, hroot₁⟩ := plic_of_disableBoth hfirst
        obtain ⟨s', hrest⟩ := ih s₁ hplic₁ (hroot₁.trans hroot)
        exact ⟨s', bind_eq_ok_iff.mpr ⟨(), s₁, hfirst, hrest⟩⟩
    exact hall _ s hplic hroot

theorem not_enabledOn_of_forM {u : Unit}
    (h : ((List.range IrqSystem.cpuCount).forM disableBoth).run s = .ok u s') {c : Nat}
    (hc : c < IrqSystem.cpuCount)
    : ¬ s'.irq.EnabledOn c 8 ∧ ¬ s'.irq.EnabledOn c 10 := by
  have hdisabled := disabled_of_forM h
  have hmem := List.mem_range.mpr hc
  constructor
  . exact fun hon => ((hdisabled.enabledOn c hc 8 (by decide)).mp hon).2 ⟨hmem, .inl rfl⟩
  . exact fun hon => ((hdisabled.enabledOn c hc 10 (by decide)).mp hon).2 ⟨hmem, .inr rfl⟩

theorem foldlM_eq_ok_iff {body : List (Nat × Nat) → Nat → DispatchM (List (Nat × Nat))}
    {v : Nat → Option (Nat × Nat)} {cpus : List Nat} {l l' : List (Nat × Nat)}
    (hbody : ∀ cpuId ∈ cpus, ∀ s₁, SameButPlic s s₁ → ∀ l l' s₂,
      (body l cpuId).run s₁ = .ok l' s₂ ↔
        (disableBoth cpuId).run s₁ = .ok () s₂ ∧ l' = l ++ (v cpuId).toList)
    : (cpus.foldlM body l).run s = .ok l' s' ↔
        (cpus.forM disableBoth).run s = .ok () s' ∧ l' = l ++ cpus.filterMap v := by
  induction cpus generalizing s l with
  | nil =>
    have hnil : ([] : List Nat).forM disableBoth = pure () := rfl
    rw [List.foldlM_nil, hnil, pure_eq_ok_iff, pure_eq_ok_iff, List.filterMap_nil, List.append_nil]
    tauto
  | cons cpuId cpus ih =>
    have hcons : (cpuId :: cpus).forM disableBoth = disableBoth cpuId >>= fun _ => cpus.forM disableBoth := rfl
    rw [List.foldlM_cons, hcons, bind_eq_ok_iff, bind_eq_ok_iff]
    have hstep := hbody cpuId List.mem_cons_self s ⟨_, rfl⟩
    have hrest {s₁ : DispatchSystem} {l₁ : List (Nat × Nat)} (h : (disableBoth cpuId).run s = .ok () s₁)
        : (cpus.foldlM body l₁).run s₁ = .ok l' s' ↔
            (cpus.forM disableBoth).run s₁ = .ok () s' ∧ l' = l₁ ++ cpus.filterMap v := by
      refine ih fun c hc s₂ hs₂ => ?_
      exact hbody c (List.mem_cons_of_mem cpuId hc) s₂ ((disabled_of_disableBoth h).frame.trans hs₂)
    have happend (l : List (Nat × Nat))
        : l ++ (v cpuId).toList ++ cpus.filterMap v = l ++ (cpuId :: cpus).filterMap v := by
      rw [List.append_assoc, List.filterMap_cons]
      cases v cpuId <;> rfl
    constructor
    . rintro ⟨l₁, s₁, hfirst, h⟩
      obtain ⟨hdisable, rfl⟩ := (hstep l l₁ s₁).mp hfirst
      obtain ⟨hforM, rfl⟩ := (hrest hdisable).mp h
      exact ⟨⟨(), s₁, hdisable, hforM⟩, happend l⟩
    . rintro ⟨⟨_, s₁, hdisable, hforM⟩, rfl⟩
      exact ⟨_, s₁, (hstep l _ s₁).mpr ⟨hdisable, rfl⟩, (hrest hdisable).mpr ⟨hforM, (happend l).symm⟩⟩

/--
One source is enabled on the first CPU and on no other, and so is the other source on the second CPU.
-/
structure Routes (s : DispatchSystem) (irqNum irqNum' first second : Nat) : Prop where
  first : ∀ c < IrqSystem.cpuCount, s.irq.EnabledOn c irqNum ↔ c = first
  second : ∀ c < IrqSystem.cpuCount, s.irq.EnabledOn c irqNum' ↔ c = second

theorem routes_of_route {cpus : List (Nat × Nat)} {a b : Nat × Nat} {irqNum irqNum' : Nat} {u : Unit}
    (h : (route cpus irqNum irqNum').run s = .ok u s') (ha : cpus[0]? = some a) (hb : cpus[1]? = some b)
    (hirq : Plic.isValid irqNum) (hirq' : Plic.isValid irqNum') (hne : irqNum ≠ irqNum')
    (hoff : ∀ c < IrqSystem.cpuCount, ¬ s.irq.EnabledOn c irqNum ∧ ¬ s.irq.EnabledOn c irqNum')
    : Routes s' irqNum irqNum' a.1 b.1 := by
  obtain ⟨a', b', irq, irq', ha', hb', henable, henable', rfl⟩ := route_eq_ok_iff.mp h
  cases ha.symm.trans ha'
  cases hb.symm.trans hb'
  constructor
  . intro c hc
    rw [IrqSystem.enabledOn_enable henable' hc hirq hirq', IrqSystem.enabledOn_enable henable hc hirq hirq]
    simp [(hoff c hc).1, hne]
  . intro c hc
    rw [IrqSystem.enabledOn_enable henable' hc hirq' hirq', IrqSystem.enabledOn_enable henable hc hirq' hirq]
    simp [(hoff c hc).2, hne.symm]

theorem route_isOk {cpus : List (Nat × Nat)} {irqNum irqNum' : Nat} (hirq : Plic.isValid irqNum)
    (hirq' : Plic.isValid irqNum') (hplic : s.irq.plic.isSome) (hroot : s.irq.rootCompatible = .riscvVirtio)
    : (∃ s', (route cpus irqNum irqNum').run s = .ok () s') ↔ 2 ≤ cpus.length := by
  constructor
  . rintro ⟨s', h⟩
    obtain ⟨_, b, _, _, _, hb, _⟩ := route_eq_ok_iff.mp h
    exact (List.getElem?_eq_some_iff.mp hb).1
  . intro hlen
    have hcontext {irq : IrqSystem} (hroot : irq.rootCompatible = .riscvVirtio) (cpuId : Nat)
        : ∃ contextId, getContextId irq.rootCompatible cpuId = .ok contextId :=
      IrqSystem.getContextId_isOk.mpr (.inl hroot)
    obtain ⟨plic, hplic⟩ := Option.isSome_iff_exists.mp hplic
    obtain ⟨contextId, hfirst⟩ := hcontext hroot cpus[0].1
    obtain ⟨irq, henable, hplic', hroot'⟩ := IrqSystem.enable_of_plic hplic hfirst hirq
    obtain ⟨plic', hplic'⟩ := Option.isSome_iff_exists.mp hplic'
    obtain ⟨contextId', hsecond⟩ := hcontext (hroot'.trans hroot) cpus[1].1
    obtain ⟨irq', henable', _⟩ := IrqSystem.enable_of_plic hplic' hsecond hirq'
    exact ⟨_, route_eq_ok_iff.mpr
      ⟨cpus[0], cpus[1], irq, irq', by simp, by simp, henable, henable', rfl⟩⟩

theorem frame_of_route {cpus : List (Nat × Nat)} {irqNum irqNum' : Nat} {u : Unit}
    (h : (route cpus irqNum irqNum').run s = .ok u s')
    : ∃ plic sources, s' = { s with irq := { s.irq with plic, sources } } := by
  obtain ⟨_, _, irq, irq', _, _, henable, henable', rfl⟩ := route_eq_ok_iff.mp h
  obtain ⟨_, _, _, _, _, rfl⟩ := IrqSystem.enable_eq_ok_iff.mp henable
  obtain ⟨_, _, _, _, _, rfl⟩ := IrqSystem.enable_eq_ok_iff.mp henable'
  exact ⟨_, _, rfl⟩

def entries (value : Nat → Option Nat) (cpus : List Nat) : List (Nat × Nat) :=
  cpus.filterMap fun cpuId => (value cpuId).map (cpuId, ·)

theorem mem_entries {value : Nat → Option Nat} {cpus : List Nat} {e : Nat × Nat}
    : e ∈ entries value cpus ↔ e.1 ∈ cpus ∧ value e.1 = some e.2 := by
  simp only [entries, List.mem_filterMap, Option.map_eq_some_iff]
  constructor
  . rintro ⟨cpuId, hmem, v, hv, rfl⟩
    exact ⟨hmem, hv⟩
  . rintro ⟨hmem, hv⟩
    exact ⟨e.1, hmem, e.2, hv, rfl⟩

theorem length_entries (value : Nat → Option Nat) (cpus : List Nat)
    : (entries value cpus).length = cpus.countP fun cpuId => (value cpuId).isSome := by
  rw [entries, List.length_filterMap_eq_countP]
  simp

theorem countP_range_of_isSome {v : Nat → Option Nat} {k : Nat} (h : ∀ c < k, (v c).isSome)
    : (List.range k).countP (fun c => (v c).isSome) = k := by
  rw [List.countP_eq_length.mpr fun c hc => h c (List.mem_range.mp hc), List.length_range]

theorem exists_cons_cons {α : Type} {l : List α} (h : 2 ≤ l.length) : ∃ a b l', l = a :: b :: l' := by
  match l with
  | [] => simp at h
  | [a] => simp at h
  | a :: b :: l => exact ⟨a, b, l, rfl⟩

theorem firstTwo_entries {value : Nat → Option Nat} {cpus : List Nat} {a b : Nat × Nat} {l : List (Nat × Nat)}
    (hsorted : cpus.Pairwise (· < ·)) (h : sortBy Prod.snd (entries value cpus) = a :: b :: l)
    : FirstTwo (fun c => c ∈ cpus ∧ (value c).isSome) (Precedes (· < ·) fun c => (value c).getD 0) a.1 b.1 := by
  have hentries : (entries value cpus).Pairwise fun a b => a.1 < b.1 := by
    rw [entries, List.pairwise_filterMap]
    refine hsorted.imp fun hlt e he e' he' => ?_
    obtain ⟨_, _, rfl⟩ := Option.map_eq_some_iff.mp he
    obtain ⟨_, _, rfl⟩ := Option.map_eq_some_iff.mp he'
    exact hlt
  have hirrefl : Std.Irrefl fun a b : Nat × Nat => a.1 < b.1 := ⟨fun a => Nat.lt_irrefl a.1⟩
  have hpairwise : (sortBy Prod.snd (entries value cpus)).Pairwise (Precedes (fun a b => a.1 < b.1) Prod.snd) :=
    sortBy_precedes hentries
  rw [h] at hpairwise
  have hfirst := firstTwo_of_pairwise hpairwise
  have hmem (e : Nat × Nat) : e ∈ a :: b :: l ↔ e.1 ∈ cpus ∧ value e.1 = some e.2 := by
    rw [← h, (sortBy_perm Prod.snd _).mem_iff, mem_entries]
  have hvalue {e : Nat × Nat} (he : e ∈ a :: b :: l) : (value e.1).getD 0 = e.2 := by
    rw [((hmem e).mp he).2]
    rfl
  have hsome {e : Nat × Nat} (he : e ∈ a :: b :: l) : e.1 ∈ cpus ∧ (value e.1).isSome := by
    obtain ⟨hcpus, hv⟩ := (hmem e).mp he
    exact ⟨hcpus, Option.isSome_iff_exists.mpr ⟨e.2, hv⟩⟩
  constructor
  case first => exact hsome hfirst.first
  case second => exact hsome hfirst.second
  case rel =>
    simpa only [Precedes, hvalue hfirst.first, hvalue hfirst.second] using hfirst.rel
  case others =>
    rintro c ⟨hcpus, hc⟩
    obtain ⟨v, hv⟩ := Option.isSome_iff_exists.mp hc
    have he : (c, v) ∈ a :: b :: l := (hmem (c, v)).mpr ⟨hcpus, hv⟩
    rcases hfirst.others (c, v) he with heq | heq | hrel
    . exact .inl (congrArg Prod.fst heq)
    . exact .inr (.inl (congrArg Prod.fst heq))
    . refine .inr (.inr ?_)
      simpa only [Precedes, hvalue hfirst.second, hvalue he] using hrel

def busyRuntime : Runtime :=
  let inspector := Inspector.new ⟨0⟩ (.new ⟨0⟩ default { id := ⟨0⟩, priority := default }) []
  {
    Runtime.new with
    registry := Std.ExtTreeMap.insert ∅ ⟨0⟩ { inspector with status := .running ⟨0⟩ }
    status := .running ⟨0⟩
  }

theorem taskPriority_of_busy (h : ∀ c, s.cpus c = busyRuntime) (c : Nat) : s.taskPriority c = some 0 := by
  simp [h c, busyRuntime, DispatchSystem.taskPriority, DispatchSystem.withSpecCpu,
    Runtime.runningTaskPriority, Runtime.withInspector, Inspector.runningTaskPriority, Inspector.withExecutor,
    Inspector.new, Inspector.tryRegister, Inspector.register, Inspector.empty, Executor.new, Executor.spawn]
  rfl

end IrqDispatch

end Jrinx
