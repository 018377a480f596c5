import Jrinx.Driver.PlicInner
import Jrinx.Util.LastValue

/-!
This module contains what the registers of the interrupt controller hold after any calls of
`PLICInner::enable`, `disable`, `set_threshold` and `set_priority`.
-/

namespace Jrinx

variable {arch : Arch}

inductive PlicCall where
  | enable (contextId irqNum : Nat)
  | disable (contextId irqNum : Nat)
  | setThreshold (contextId : Nat) (threshold : BitVec 8)
  | setPriority (irqNum : Nat) (priority : BitVec 8)
  deriving DecidableEq, Repr

namespace PlicCall

def InRange (a : PlicCall) : Prop :=
  match a with
  | .enable contextId irqNum | .disable contextId irqNum =>
    contextId ≤ PlicOffset.maxContext ∧ Plic.isValid irqNum
  | .setThreshold contextId _ => contextId ≤ PlicOffset.maxContext
  | .setPriority irqNum _ => Plic.isValid irqNum

instance (a : PlicCall) : Decidable a.InRange := by
  cases a <;> unfold InRange <;> infer_instance

def offset (a : PlicCall) : Nat :=
  match a with
  | .enable contextId irqNum | .disable contextId irqNum => PlicOffset.enable contextId irqNum
  | .setThreshold contextId _ => PlicOffset.threshold contextId
  | .setPriority irqNum _ => PlicOffset.priority irqNum

def value (a : PlicCall) (content : BitVec 32) : BitVec 32 :=
  match a with
  | .enable _ irqNum => 1#32 <<< (irqNum % 32) ||| content
  | .disable _ irqNum => ~~~(1#32 <<< (irqNum % 32)) &&& content
  | .setThreshold _ threshold => threshold.setWidth 32
  | .setPriority _ priority => priority.setWidth 32

def enableValue (contextId irqNum : Nat) (a : PlicCall) : Option Bool :=
  match a with
  | .enable c i => if c = contextId ∧ i = irqNum then some true else none
  | .disable c i => if c = contextId ∧ i = irqNum then some false else none
  | _ => none

def thresholdValue (contextId : Nat) (a : PlicCall) : Option (BitVec 32) :=
  match a with
  | .setThreshold c threshold => if c = contextId then some (threshold.setWidth 32) else none
  | _ => none

def priorityValue (irqNum : Nat) (a : PlicCall) : Option (BitVec 32) :=
  match a with
  | .setPriority i priority => if i = irqNum then some (priority.setWidth 32) else none
  | _ => none

end PlicCall

namespace PlicInner

def call (inner : PlicInner arch) (mode : BuildMode) (regs : PlicRegs arch) (a : PlicCall)
    : IrqM (PlicRegs arch) :=
  match a with
  | .enable contextId irqNum => inner.enable mode regs contextId irqNum
  | .disable contextId irqNum => inner.disable mode regs contextId irqNum
  | .setThreshold contextId threshold => return inner.setThreshold regs contextId threshold
  | .setPriority irqNum priority => inner.setPriority mode regs irqNum priority

def calls (inner : PlicInner arch) (mode : BuildMode) (regs : PlicRegs arch) (as : List PlicCall)
    : IrqM (PlicRegs arch) :=
  as.foldlM (inner.call mode) regs

end PlicInner

namespace PlicRegs

def enableBit (regs : PlicRegs arch) (base : VirtAddr arch) (contextId irqNum : Nat) : Bool :=
  (regs (regAt base (PlicOffset.enable contextId irqNum))).getLsbD (irqNum % 32)

def threshold (regs : PlicRegs arch) (base : VirtAddr arch) (contextId : Nat) : BitVec 32 :=
  regs (regAt base (PlicOffset.threshold contextId))

def priority (regs : PlicRegs arch) (base : VirtAddr arch) (irqNum : Nat) : BitVec 32 :=
  regs (regAt base (PlicOffset.priority irqNum))

end PlicRegs

theorem getLsbD_one_shiftLeft {k j : Nat} (hk : k < 32) : (1#32 <<< k).getLsbD j = decide (j = k) := by
  simp only [BitVec.getLsbD_shiftLeft, BitVec.getLsbD_one]
  grind

theorem getLsbD_or_one (w : BitVec 32) {k j : Nat} (hk : k < 32)
    : (1#32 <<< k ||| w).getLsbD j = if j = k then true else w.getLsbD j := by
  rw [BitVec.getLsbD_or, getLsbD_one_shiftLeft hk]
  split
  . next h => simp [h]
  . next h => simp [h]

theorem getLsbD_and_not_one (w : BitVec 32) {k j : Nat} (hk : k < 32)
    : (~~~(1#32 <<< k) &&& w).getLsbD j = if j = k then false else w.getLsbD j := by
  rw [BitVec.getLsbD_and, BitVec.getLsbD_not, getLsbD_one_shiftLeft hk]
  split
  . next h => simp [h]
  . next h =>
    by_cases hj : j < 32
    . simp [h, hj]
    . simp [h, BitVec.getLsbD_of_ge w j (by omega)]

namespace PlicInner

variable {base : VirtAddr arch} {inner : PlicInner arch} {mode : BuildMode} {regs regs' : PlicRegs arch}
  {a : PlicCall}

theorem call_eq (hnew : new base = some inner) (ha : a.InRange)
    : inner.call mode regs a =
        .ok
          (Function.update regs (regAt base a.offset) (a.value (regs (regAt base a.offset)))) := by
  have hassert {irqNum : Nat} (hvalid : Plic.isValid irqNum)
      : mode.debugAssert (Plic.isValid irqNum) = .ok () :=
    BuildMode.check_of hvalid
  cases a with
  | enable contextId irqNum =>
    simp only [call, enable, hassert ha.2, PlicRegs.read, PlicRegs.write, addr_enableReg hnew]
    rfl
  | disable contextId irqNum =>
    simp only [call, disable, hassert ha.2, PlicRegs.read, PlicRegs.write, addr_enableReg hnew]
    rfl
  | setThreshold contextId threshold =>
    simp only [call, setThreshold, PlicRegs.write, addr_thresholdReg hnew]
    rfl
  | setPriority irqNum priority =>
    simp only [call, setPriority, hassert ha, PlicRegs.write, addr_priorityReg hnew]
    rfl

theorem calls_eq (hnew : new base = some inner) {as : List PlicCall} (has : ∀ a ∈ as, a.InRange)
    : ∃ regs', inner.calls mode regs as = .ok regs' := by
  induction as generalizing regs with
  | nil => exact ⟨regs, rfl⟩
  | cons a as ih =>
    rw [calls, List.foldlM_cons, call_eq hnew (has a List.mem_cons_self)]
    exact ih fun b hb => has b (List.mem_cons_of_mem a hb)

theorem offset_lt (ha : a.InRange) : a.offset < 2 ^ 32 := by
  cases a with
  | enable contextId irqNum | disable contextId irqNum =>
    obtain ⟨hcontext, hvalid⟩ := ha
    simp only [PlicCall.offset, PlicOffset.enable, PlicOffset.maxContext, Plic.isValid, Plic.irqRange] at *
    omega
  | setThreshold contextId threshold =>
    simp only [PlicCall.InRange, PlicCall.offset, PlicOffset.threshold, PlicOffset.maxContext] at *
    omega
  | setPriority irqNum priority =>
    simp only [PlicCall.InRange, PlicCall.offset, PlicOffset.priority, Plic.isValid, Plic.irqRange] at *
    omega

theorem call_regs (hnew : new base = some inner) (ha : a.InRange) (h : inner.call mode regs a = .ok regs')
    {offset : Nat} (hoffset : offset < 2 ^ 32)
    : regs' (regAt base offset) =
        if offset = a.offset then a.value (regs (regAt base offset)) else regs (regAt base offset) := by
  cases (call_eq hnew ha).symm.trans h
  rw [Function.update_apply]
  simp only [regAt_inj hoffset (offset_lt ha)]
  split
  . next heq => rw [heq]
  . rfl

theorem call_enableBit (hnew : new base = some inner) (ha : a.InRange)
    (h : inner.call mode regs a = .ok regs') {contextId irqNum : Nat}
    (hcontext : contextId ≤ PlicOffset.maxContext) (hirq : irqNum < 1024)
    : regs'.enableBit base contextId irqNum =
        (a.enableValue contextId irqNum).getD (regs.enableBit base contextId irqNum) := by
  have hlt : PlicOffset.enable contextId irqNum < 2 ^ 32 := by
    simp only [PlicOffset.enable, PlicOffset.maxContext] at *
    omega
  simp only [PlicRegs.enableBit, call_regs hnew ha h hlt]
  generalize regs (regAt base (PlicOffset.enable contextId irqNum)) = content
  cases a with
  | enable c i | disable c i =>
    obtain ⟨hc, hi⟩ := ha
    have hpair : c = contextId ∧ i = irqNum ↔
        PlicOffset.enable contextId irqNum = PlicOffset.enable c i ∧ irqNum % 32 = i % 32 := by
      simp only [PlicOffset.enable, PlicOffset.maxContext, Plic.isValid, Plic.irqRange] at *
      omega
    simp only [PlicCall.offset, PlicCall.value, PlicCall.enableValue, hpair]
    have hmod : i % 32 < 32 := Nat.mod_lt i (by decide)
    by_cases heq : PlicOffset.enable contextId irqNum = PlicOffset.enable c i
    . simp only [heq, if_true, true_and, getLsbD_or_one _ hmod, getLsbD_and_not_one _ hmod]
      split <;> rfl
    . simp only [heq, if_false, false_and, Option.getD_none]
  | setThreshold c threshold =>
    have hne : PlicOffset.enable contextId irqNum ≠ PlicOffset.threshold c := by
      simp only [PlicOffset.enable, PlicOffset.threshold, PlicOffset.maxContext] at *
      omega
    simp only [PlicCall.offset, PlicCall.enableValue, hne, if_false, Option.getD_none]
  | setPriority i priority =>
    have hne : PlicOffset.enable contextId irqNum ≠ PlicOffset.priority i := by
      simp only [PlicCall.InRange, PlicOffset.enable, PlicOffset.priority, Plic.isValid, Plic.irqRange] at *
      omega
    simp only [PlicCall.offset, PlicCall.enableValue, hne, if_false, Option.getD_none]

theorem call_threshold (hnew : new base = some inner) (ha : a.InRange)
    (h : inner.call mode regs a = .ok regs') {contextId : Nat}
    (hcontext : contextId ≤ PlicOffset.maxContext)
    : regs'.threshold base contextId =
        (a.thresholdValue contextId).getD (regs.threshold base contextId) := by
  have hlt : PlicOffset.threshold contextId < 2 ^ 32 := by
    simp only [PlicOffset.threshold, PlicOffset.maxContext] at *
    omega
  simp only [PlicRegs.threshold, call_regs hnew ha h hlt]
  cases a with
  | enable c i | disable c i =>
    obtain ⟨hc, hi⟩ := ha
    have hne : PlicOffset.threshold contextId ≠ PlicOffset.enable c i := by
      simp only [PlicOffset.enable, PlicOffset.threshold, PlicOffset.maxContext, Plic.isValid,
        Plic.irqRange] at *
      omega
    simp only [PlicCall.offset, PlicCall.thresholdValue, hne, if_false, Option.getD_none]
  | setThreshold c threshold =>
    have hoffset : PlicOffset.threshold contextId = PlicOffset.threshold c ↔ c = contextId := by
      simp only [PlicOffset.threshold]
      omega
    simp only [PlicCall.offset, PlicCall.value, PlicCall.thresholdValue, hoffset]
    split <;> rfl
  | setPriority i priority =>
    have hne : PlicOffset.threshold contextId ≠ PlicOffset.priority i := by
      simp only [PlicCall.InRange, PlicOffset.threshold, PlicOffset.priority, Plic.isValid,
        Plic.irqRange] at *
      omega
    simp only [PlicCall.offset, PlicCall.thresholdValue, hne, if_false, Option.getD_none]

theorem call_priority (hnew : new base = some inner) (ha : a.InRange)
    (h : inner.call mode regs a = .ok regs') {irqNum : Nat} (hirq : irqNum < 1024)
    : regs'.priority base irqNum = (a.priorityValue irqNum).getD (regs.priority base irqNum) := by
  have hlt : PlicOffset.priority irqNum < 2 ^ 32 := by
    simp only [PlicOffset.priority]
    omega
  simp only [PlicRegs.priority, call_regs hnew ha h hlt]
  cases a with
  | enable c i | disable c i =>
    have hne : PlicOffset.priority irqNum ≠ PlicOffset.enable c i := by
      simp only [PlicOffset.enable, PlicOffset.priority]
      omega
    simp only [PlicCall.offset, PlicCall.priorityValue, hne, if_false, Option.getD_none]
  | setThreshold c threshold =>
    have hne : PlicOffset.priority irqNum ≠ PlicOffset.threshold c := by
      simp only [PlicOffset.threshold, PlicOffset.priority]
      omega
    simp only [PlicCall.offset, PlicCall.priorityValue, hne, if_false, Option.getD_none]
  | setPriority i priority =>
    have hoffset : PlicOffset.priority irqNum = PlicOffset.priority i ↔ i = irqNum := by
      simp only [PlicOffset.priority]
      omega
    simp only [PlicCall.offset, PlicCall.value, PlicCall.priorityValue, hoffset]
    split <;> rfl

/--
After the calls every register holds what the last call that is about it has written, and the registers that
no call is about are as they were.
-/
structure Independent (base : VirtAddr arch) (regs regs' : PlicRegs arch) (as : List PlicCall) : Prop where
  enableBit : ∀ contextId ≤ PlicOffset.maxContext, ∀ irqNum < 1024,
    regs'.enableBit base contextId irqNum =
      lastValue (PlicCall.enableValue contextId irqNum) as (regs.enableBit base contextId irqNum)
  threshold : ∀ contextId ≤ PlicOffset.maxContext,
    regs'.threshold base contextId =
      lastValue (PlicCall.thresholdValue contextId) as (regs.threshold base contextId)
  priority : ∀ irqNum < 1024,
    regs'.priority base irqNum = lastValue (PlicCall.priorityValue irqNum) as (regs.priority base irqNum)
  others : ∀ addr, (∀ a ∈ as, addr ≠ regAt base a.offset) → regs' addr = regs addr

theorem calls_others (hnew : new base = some inner) {as : List PlicCall} (has : ∀ a ∈ as, a.InRange)
    (h : inner.calls mode regs as = .ok regs') {addr : VirtAddr arch}
    (hne : ∀ a ∈ as, addr ≠ regAt base a.offset)
    : regs' addr = regs addr := by
  have hlast : regs' addr = lastValue (fun _ => none) as (regs addr) := by
    refine lastValue_foldlM (o := fun regs => regs addr) ?_ h
    intro a ha s s' hcall
    cases (call_eq hnew (has a ha)).symm.trans hcall
    exact Function.update_of_ne (hne a ha) _ _
  rw [hlast, lastValue_of_none fun _ _ => rfl]

/--
For every sequence of calls, contexts and sources that the controller has: nothing but the last call on a pair
of a context and a source determines its enable bit, and so it is for the thresholds and the priorities.
-/
theorem calls_independent (hnew : new base = some inner) (mode : BuildMode) (regs : PlicRegs arch)
    (as : List PlicCall) (has : ∀ a ∈ as, a.InRange)
    : ∃ regs', inner.calls mode regs as = .ok regs' ∧ Independent base regs regs' as := by
  obtain ⟨regs', h⟩ : ∃ regs', inner.calls mode regs as = .ok regs' := calls_eq hnew has
  refine ⟨regs', h, ?_⟩
  constructor
  case enableBit =>
    intro contextId hcontext irqNum hirq
    refine lastValue_foldlM (o := fun regs => PlicRegs.enableBit regs base contextId irqNum) ?_ h
    exact fun a ha s s' hcall => call_enableBit hnew (has a ha) hcall hcontext hirq
  case threshold =>
    intro contextId hcontext
    refine lastValue_foldlM (o := fun regs => PlicRegs.threshold regs base contextId) ?_ h
    exact fun a ha s s' hcall => call_threshold hnew (has a ha) hcall hcontext
  case priority =>
    intro irqNum hirq
    refine lastValue_foldlM (o := fun regs => PlicRegs.priority regs base irqNum) ?_ h
    exact fun a ha s s' hcall => call_priority hnew (has a ha) hcall hirq
  case others => exact fun addr hne => calls_others hnew has h hne

theorem calls_independent_uart
    : ∃ (inner : PlicInner .riscv64) (regs' : PlicRegs .riscv64), new 0xc000000 = some inner ∧
        inner.calls .debug (fun _ => 0) [.setPriority 10 7, .enable 1 10, .enable 3 10, .disable 1 10] =
          .ok regs' ∧
        Independent 0xc000000 (fun _ => 0) regs'
          [.setPriority 10 7, .enable 1 10, .enable 3 10, .disable 1 10] := by
  obtain ⟨inner, hnew⟩ : ∃ inner : PlicInner .riscv64, new 0xc000000 = some inner := exists_new (by decide)
  obtain ⟨regs', hcalls, h⟩ := calls_independent hnew .debug (fun _ => 0)
    [.setPriority 10 7, .enable 1 10, .enable 3 10, .disable 1 10] (by decide)
  exact ⟨inner, regs', hnew, hcalls, h⟩

end PlicInner

end Jrinx
