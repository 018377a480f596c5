import Jrinx.Driver.Plic
import Jrinx.Paging.Addr

/-!
This module contains the registers of the interrupt controller by their addresses: the pointers of
`driver/src/io/mmio.rs`, and how `PLICInner` in `driver/src/irq/riscv_plic.rs` finds a register with them.
Addresses wrap around, as they do in a release build.
-/

namespace Jrinx

variable {arch : Arch}

structure Mmio (arch : Arch) where
  addr : VirtAddr arch
  aligned : addr.toNat % 4 = 0

namespace Mmio

-- There is no result where the assertion fails.
def fromBase (baseAddr : VirtAddr arch) : Option (Mmio arch) :=
  if h : baseAddr.toNat % 4 = 0 then some ⟨baseAddr, h⟩ else none

theorem aligned_add (m : Mmio arch) (offset : Nat) : (m.addr + BitVec.ofNat _ (4 * offset)).toNat % 4 = 0 := by
  have hbits : 4 ∣ 2 ^ arch.bits := by
    cases arch <;> decide
  have := m.aligned
  rw [BitVec.toNat_add, BitVec.toNat_ofNat, Nat.add_mod_mod, Nat.mod_mod_of_dvd _ hbits]
  omega

-- The offset counts registers.
def add (m : Mmio arch) (offset : Nat) : Mmio arch where
  addr := m.addr + BitVec.ofNat _ (4 * offset)
  aligned := m.aligned_add offset

theorem fromBase_add (m : Mmio arch) (offset : Nat)
    : fromBase (m.addr + BitVec.ofNat _ (4 * offset)) = some (m.add offset) := by
  rw [fromBase, dif_pos (m.aligned_add offset)]
  rfl

end Mmio

abbrev PlicRegs (arch : Arch) := VirtAddr arch → BitVec 32

namespace PlicRegs

def read (regs : PlicRegs arch) (m : Mmio arch) : BitVec 32 := regs m.addr

def write (regs : PlicRegs arch) (m : Mmio arch) (value : BitVec 32) : PlicRegs arch :=
  Function.update regs m.addr value

end PlicRegs

structure PlicInner (arch : Arch) where
  priorityBase : Mmio arch
  enableBase : Mmio arch
  contextBase : Mmio arch

namespace PlicInner

def plicPriorityBase : Nat := 0x0

def plicEnableBase : Nat := 0x2000

def plicContextBase : Nat := 0x200000

def plicContextThreshold : Nat := 0x0

def plicEnableContextOffset : Nat := 0x80 / 4

def plicContextHartOffset : Nat := 0x1000 / 4

-- From `Plic::new`.
def new (baseAddr : VirtAddr arch) : Option (PlicInner arch) := do
  let priorityBase ← Mmio.fromBase (baseAddr + BitVec.ofNat _ plicPriorityBase)
  let enableBase ← Mmio.fromBase (baseAddr + BitVec.ofNat _ plicEnableBase)
  let contextBase ← Mmio.fromBase (baseAddr + BitVec.ofNat _ plicContextBase)
  return { priorityBase, enableBase, contextBase }

section

variable (inner : PlicInner arch) (mode : BuildMode) (regs : PlicRegs arch)

def enableReg (contextId irqNum : Nat) : Mmio arch :=
  (inner.enableBase.add (contextId * plicEnableContextOffset)).add (irqNum / 32)

def thresholdReg (contextId : Nat) : Mmio arch :=
  (inner.contextBase.add (contextId * plicContextHartOffset)).add plicContextThreshold

def enable (contextId irqNum : Nat) : IrqM (PlicRegs arch) := do
  mode.debugAssert (Plic.isValid irqNum)
  let content := regs.read (inner.enableReg contextId irqNum)
  return regs.write (inner.enableReg contextId irqNum) (1#32 <<< (irqNum % 32) ||| content)

def disable (contextId irqNum : Nat) : IrqM (PlicRegs arch) := do
  mode.debugAssert (Plic.isValid irqNum)
  let content := regs.read (inner.enableReg contextId irqNum)
  return regs.write (inner.enableReg contextId irqNum) (~~~(1#32 <<< (irqNum % 32)) &&& content)

def disableAll (contextId : Nat) : PlicRegs arch :=
  (List.range 128).foldl
    (fun regs i => regs.write (inner.enableBase.add (contextId * plicEnableContextOffset + i * 4)) 0) regs

def setPriority (irqNum : Nat) (priority : BitVec 8) : IrqM (PlicRegs arch) := do
  mode.debugAssert (Plic.isValid irqNum)
  return regs.write (inner.priorityBase.add irqNum) (priority.setWidth 32)

def setThreshold (contextId : Nat) (threshold : BitVec 8) : PlicRegs arch :=
  regs.write (inner.thresholdReg contextId) (threshold.setWidth 32)

def init (contextMaxId : Nat) : PlicRegs arch :=
  (List.range (contextMaxId + 1)).foldl
    (fun regs i => inner.setThreshold (inner.disableAll regs i) i 0) regs

end

end PlicInner

-- The offsets of the registers from the base address, in bytes.
namespace PlicOffset

def enable (contextId irqNum : Nat) : Nat := 0x2000 + 0x80 * contextId + 4 * (irqNum / 32)

def threshold (contextId : Nat) : Nat := 0x200000 + 0x1000 * contextId

def priority (irqNum : Nat) : Nat := 4 * irqNum

-- The context is one of those that fit between the enable bits and the thresholds.
def maxContext : Nat := 15871

end PlicOffset

def regAt (base : VirtAddr arch) (offset : Nat) : VirtAddr arch := base + BitVec.ofNat _ offset

theorem regAt_inj {base : VirtAddr arch} {n m : Nat} (hn : n < 2 ^ 32) (hm : m < 2 ^ 32)
    : regAt base n = regAt base m ↔ n = m := by
  have hbits : 2 ^ 32 ≤ 2 ^ arch.bits := by
    cases arch <;> decide
  constructor
  . intro h
    have hoffset : BitVec.ofNat arch.bits n = BitVec.ofNat arch.bits m := by
      simpa [regAt] using h
    have htoNat := congrArg BitVec.toNat hoffset
    rw [BitVec.toNat_ofNat, BitVec.toNat_ofNat, Nat.mod_eq_of_lt (by omega),
      Nat.mod_eq_of_lt (by omega)] at htoNat
    exact htoNat
  . rintro rfl
    rfl

theorem Mmio.addr_add {base : VirtAddr arch} {m : Mmio arch} {offset : Nat}
    (h : m.addr = regAt base offset) (n : Nat)
    : (m.add n).addr = regAt base (offset + 4 * n) := by
  have hadd : (m.add n).addr = m.addr + BitVec.ofNat _ (4 * n) := rfl
  rw [hadd, h, regAt, regAt, BitVec.add_assoc, ← BitVec.ofNat_add]

namespace PlicInner

variable {base : VirtAddr arch} {inner : PlicInner arch}

theorem new_eq_some (h : new base = some inner)
    : inner.priorityBase.addr = regAt base 0 ∧ inner.enableBase.addr = regAt base 0x2000 ∧
        inner.contextBase.addr = regAt base 0x200000 := by
  simp only [new, Mmio.fromBase, Option.bind_eq_bind, Option.bind_eq_some_iff, Option.pure_def,
    Option.some.injEq] at h
  obtain ⟨priorityBase, hpriority, enableBase, henable, contextBase, hcontext, rfl⟩ := h
  split at hpriority <;> cases hpriority
  split at henable <;> cases henable
  split at hcontext <;> cases hcontext
  exact ⟨rfl, rfl, rfl⟩

theorem exists_new (h : base.toNat % 4 = 0) : ∃ inner, new base = some inner := by
  have hpriority : Mmio.fromBase (base + BitVec.ofNat _ plicPriorityBase) = some _ :=
    Mmio.fromBase_add ⟨base, h⟩ 0
  have henable : Mmio.fromBase (base + BitVec.ofNat _ plicEnableBase) = some _ :=
    Mmio.fromBase_add ⟨base, h⟩ 0x800
  have hcontext : Mmio.fromBase (base + BitVec.ofNat _ plicContextBase) = some _ :=
    Mmio.fromBase_add ⟨base, h⟩ 0x80000
  rw [new, hpriority, henable, hcontext]
  exact ⟨_, rfl⟩

theorem addr_enableReg (h : new base = some inner) (contextId irqNum : Nat)
    : (inner.enableReg contextId irqNum).addr = regAt base (PlicOffset.enable contextId irqNum) := by
  have haddr := Mmio.addr_add (Mmio.addr_add (new_eq_some h).2.1 (contextId * plicEnableContextOffset))
    (irqNum / 32)
  rw [enableReg, haddr, PlicOffset.enable, plicEnableContextOffset]
  congr 1
  omega

theorem addr_thresholdReg (h : new base = some inner) (contextId : Nat)
    : (inner.thresholdReg contextId).addr = regAt base (PlicOffset.threshold contextId) := by
  have haddr := Mmio.addr_add (Mmio.addr_add (new_eq_some h).2.2 (contextId * plicContextHartOffset))
    plicContextThreshold
  rw [thresholdReg, haddr, PlicOffset.threshold, plicContextHartOffset, plicContextThreshold]
  congr 1
  omega

theorem addr_priorityReg (h : new base = some inner) (irqNum : Nat)
    : (inner.priorityBase.add irqNum).addr = regAt base (PlicOffset.priority irqNum) := by
  rw [Mmio.addr_add (new_eq_some h).1, PlicOffset.priority, Nat.zero_add]

def Represents (base : VirtAddr arch) (plic : Plic) (regs : PlicRegs arch) : Prop :=
  ∀ word < 2 ^ 26, plic.regs word = regs (regAt base (4 * word))

variable {plic plic' : Plic} {regs : PlicRegs arch}

theorem Represents.write (h : Represents base plic regs) {m : Mmio arch} {word : Nat} (hword : word < 2 ^ 26)
    (haddr : m.addr = regAt base (4 * word)) (value : BitVec 32)
    : Represents base (plic.write word value) (regs.write m value) := by
  intro word' hword'
  have hinj : regAt base (4 * word') = regAt base (4 * word) ↔ word' = word := by
    rw [regAt_inj (by omega) (by omega)]
    omega
  simp only [Plic.write, PlicRegs.write, Function.update_apply, haddr, hinj]
  rw [h word' hword']

theorem enable_word (contextId irqNum : Nat)
    : PlicOffset.enable contextId irqNum = 4 * Plic.enableWord contextId irqNum := by
  rw [PlicOffset.enable, Plic.enableWord]
  omega

theorem threshold_word (contextId : Nat) : PlicOffset.threshold contextId = 4 * Plic.thresholdWord contextId := by
  rw [PlicOffset.threshold, Plic.thresholdWord]
  omega

theorem represents_enable (hnew : new base = some inner) (h : Represents base plic regs) {mode : BuildMode}
    {root : RootCompatible} {cpuId irqNum contextId : Nat} (hcontext : getContextId root cpuId = .ok contextId)
    (hle : contextId ≤ PlicOffset.maxContext) (hirq : irqNum < 1024)
    (henable : plic.enable mode root cpuId irqNum = .ok plic')
    : ∃ regs', inner.enable mode regs contextId irqNum = .ok regs' ∧
        Represents base plic' (inner.setThreshold regs' contextId 0) := by
  have hword : Plic.enableWord contextId irqNum < 2 ^ 26 ∧ Plic.thresholdWord contextId < 2 ^ 26 := by
    simp only [Plic.enableWord, Plic.thresholdWord, PlicOffset.maxContext] at *
    omega
  have henableReg := (addr_enableReg hnew contextId irqNum).trans
    (congrArg (regAt base) (enable_word contextId irqNum))
  have hthresholdReg := (addr_thresholdReg hnew contextId).trans
    (congrArg (regAt base) (threshold_word contextId))
  simp only [Plic.enable, hcontext, Except.bind_eq_ok_iff, Except.pure_eq_ok_iff] at henable
  obtain ⟨_, hok, _, hassert, rfl⟩ := henable
  cases hok
  refine ⟨_, by rw [enable, hassert]; rfl, ?_⟩
  rw [h _ hword.1, PlicRegs.read, henableReg]
  exact (h.write hword.1 henableReg _).write hword.2 hthresholdReg _

theorem represents_disable (hnew : new base = some inner) (h : Represents base plic regs) {mode : BuildMode}
    {root : RootCompatible} {cpuId irqNum contextId : Nat} (hcontext : getContextId root cpuId = .ok contextId)
    (hle : contextId ≤ PlicOffset.maxContext) (hirq : irqNum < 1024)
    (hdisable : plic.disable mode root cpuId irqNum = .ok plic')
    : ∃ regs', inner.disable mode regs contextId irqNum = .ok regs' ∧ Represents base plic' regs' := by
  have hword : Plic.enableWord contextId irqNum < 2 ^ 26 := by
    simp only [Plic.enableWord, PlicOffset.maxContext] at *
    omega
  have henableReg := (addr_enableReg hnew contextId irqNum).trans
    (congrArg (regAt base) (enable_word contextId irqNum))
  simp only [Plic.disable, hcontext, Except.bind_eq_ok_iff, Except.pure_eq_ok_iff] at hdisable
  obtain ⟨_, hok, _, hassert, rfl⟩ := hdisable
  cases hok
  refine ⟨_, by rw [disable, hassert]; rfl, ?_⟩
  rw [h _ hword, PlicRegs.read, henableReg]
  exact h.write hword henableReg _

end PlicInner

end Jrinx
