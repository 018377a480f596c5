import Jrinx.Driver.Registered
import Jrinx.Driver.Windows

/-!
This module contains the registers that `init_strategy` of `driver/src/irq/irq_dispatch.rs` accesses when the devices
have been probed: it enables the interrupts of the network and of the serial port on the hart that boots. Its counters
are in `IrqSystem`.
-/

namespace Jrinx

variable {arch : Arch}

open DevProber

namespace DevState

-- The entry of `IRQ_TABLE` under `PLIC_PHANDLE`.
def controller (s : DevState arch) : Option (PlicInner arch × IrqManager) := s.plicPhandle.bind s.irqTable

-- `Plic::enable`
def enable (s : DevState arch) (rootCompatible : RootCompatible) (cpuId irqNum : Nat) : Outcome (DevState arch) :=
  match s.controller, getContextId rootCompatible cpuId with
  | some (inner, _), .ok contextId =>
    if s.accessible (inner.enableReg contextId irqNum) ∧ s.accessible (inner.thresholdReg contextId) then
      match inner.enable .release s.regs contextId irqNum with
      | .ok regs => .next { s with regs := inner.setThreshold regs contextId 0 }
      | .error _ => .panic
    else
      .panic
  | _, _ => .panic

def initStrategy (s : DevState arch) (rootCompatible : RootCompatible) (cpuId : Nat) : Outcome (DevState arch) :=
  match s.enable rootCompatible cpuId 8 with
  | .next s => s.enable rootCompatible cpuId 10
  | .panic => .panic
  | .disabled => .disabled

/--
What `init_strategy` relies on: a controller has been probed, the hart has a context there, and the registers of this
context are accessible.
-/
def StrategyReady (s : DevState arch) (rootCompatible : RootCompatible) (cpuId : Nat) : Prop :=
  ∃ inner irqManager contextId, s.controller = some (inner, irqManager) ∧
    getContextId rootCompatible cpuId = .ok contextId ∧ s.accessible (inner.enableReg contextId 0) = true ∧
      s.accessible (inner.thresholdReg contextId) = true

variable {s s' : DevState arch} {rootCompatible : RootCompatible} {cpuId irqNum : Nat}

theorem enableReg_of_lt (inner : PlicInner arch) (contextId : Nat) (hlt : irqNum < 32)
    : inner.enableReg contextId irqNum = inner.enableReg contextId 0 := by
  rw [PlicInner.enableReg, PlicInner.enableReg, Nat.div_eq_of_lt hlt]

theorem enable_cases (s : DevState arch) (rootCompatible : RootCompatible) (cpuId : Nat) (hlt : irqNum < 32)
    : (s.StrategyReady rootCompatible cpuId ∧
        ∃ regs, s.enable rootCompatible cpuId irqNum = .next { s with regs }) ∨
        (¬ s.StrategyReady rootCompatible cpuId ∧ s.enable rootCompatible cpuId irqNum = .panic) := by
  rw [enable]
  split
  next inner irqManager contextId hcontroller hcontext =>
    rw [enableReg_of_lt inner contextId hlt]
    split
    next haccessible =>
      exact .inl ⟨⟨inner, irqManager, contextId, hcontroller, hcontext, haccessible⟩, _, rfl⟩
    next haccessible =>
      refine .inr ⟨?_, rfl⟩
      rintro ⟨_, _, _, hcontroller', hcontext', haccessible'⟩
      rw [hcontroller] at hcontroller'
      rw [hcontext] at hcontext'
      cases hcontroller'
      cases hcontext'
      exact haccessible haccessible'
  next hnone =>
    refine .inr ⟨?_, rfl⟩
    rintro ⟨inner, irqManager, contextId, hcontroller, hcontext, _⟩
    exact hnone inner irqManager contextId hcontroller hcontext

/--
`init_strategy` returns if and only if all that it relies on is there, and then it has only written to registers.
-/
theorem initStrategy_cases (s : DevState arch) (rootCompatible : RootCompatible) (cpuId : Nat)
    : (s.StrategyReady rootCompatible cpuId ∧ ∃ regs, s.initStrategy rootCompatible cpuId = .next { s with regs }) ∨
        (¬ s.StrategyReady rootCompatible cpuId ∧ s.initStrategy rootCompatible cpuId = .panic) := by
  rw [initStrategy]
  obtain ⟨hready, regs, hfirst⟩ | ⟨hnot, hfirst⟩ := s.enable_cases rootCompatible cpuId (show 8 < 32 by decide)
  . rw [hfirst]
    obtain ⟨_, regs', hsecond⟩ | ⟨hnot, _⟩ :=
      ({ s with regs } : DevState arch).enable_cases rootCompatible cpuId (show 10 < 32 by decide)
    . exact .inl ⟨hready, regs', hsecond⟩
    . exact absurd hready hnot
  . rw [hfirst]
    exact .inr ⟨hnot, rfl⟩

end DevState

section

variable {s s' : DevState arch} {sort : SortUnstable (@ExclusiveIntervals.byPosAndDelta arch.bits)}
  {kernelEnd : VirtAddr arch} {root : PhysFrame arch} {mem : Memory arch} {heap : List (PhysFrame arch)}
  {probers : List DevProber} {nodes : List FdtNode}

/--
When the devices have been probed, `init_strategy` finds what it relies on if there is an interrupt controller and the
context of the hart is one of those in its region.
-/
theorem strategyReady_of_probeAllDevice (hnodup : probers.Nodup) (hunprobed : s.Unprobed)
    (hprepared : s.Prepared root mem heap probers nodes) (hsuits : s.bootTable.Suits probers nodes)
    (hprobe : probeAllDevice sort kernelEnd probers nodes s = .next s') {node : FdtNode} (hnode : node ∈ nodes)
    (hmatches : DevProber.plic.matches node = true)
    (hfirst : (nodes.filter DevProber.plic.matches).findSome? FdtNode.handle = node.handle)
    {phandle startingAddress size maxId : Nat} (hphandle : node.phandle = .value phandle)
    (hregion : node.region = some (startingAddress, size)) (hmax : DevState.contextMaxId size = some maxId)
    {rootCompatible : RootCompatible} {cpuId contextId : Nat}
    (hcontext : getContextId rootCompatible cpuId = .ok contextId) (hle : contextId ≤ maxId)
    : s'.StrategyReady rootCompatible cpuId := by
  obtain ⟨rest, hperm, _, hexec⟩ := (probeAllDevice_iff sort kernelEnd).mp hprobe
  have hlt (a) (ha : a ∈ pairs (.intc :: .plic :: .memory :: rest) nodes) :=
    hsuits.below a ((mem_pairs_perm hperm).mp ha)
  have hfound := DevState.found_of_exec hunprobed (hperm.nodup_iff.mpr hnodup) hexec
  have hcourse := hprepared.course.exec hprepared.pages hprepared.inMem hlt hexec
  -- the entry of the first controller, which is the one with its handle
  have hplicPhandle : s'.plicPhandle = some phandle := by
    rw [hfound.plic, hfirst, FdtNode.handle, hphandle]
  have hmem : phandle ∈ s'.handles := by
    rw [hfound.handles]
    exact ⟨node, hnode, hmatches, hphandle⟩
  obtain ⟨⟨inner, irqManager⟩, hentry⟩ := Option.isSome_iff_exists.mp hmem
  obtain ⟨node', startingAddress', size', hplic, hphandle', hregion', hnew⟩ := hcourse.entry hentry
  rw [List.nil_append] at hplic
  obtain ⟨_, hnode', hmatches'⟩ := mem_pairs.mp hplic
  have hsame := hsuits.handles node' hnode' node hnode hmatches' hmatches (hphandle'.trans hphandle.symm)
  rw [hregion', hregion] at hsame
  cases hsame
  have hregisters := (plicRegisters_of_exec hprepared.pages hprepared.inMem hprepared.bootTable hlt hexec hplic hregion'
    hmax hnew).1
  have haccessible {m : Mmio arch} (haccesses : inner.Accesses maxId m) : s'.accessible m = true := by
    obtain ⟨_, _, _, htranslate⟩ := hregisters m haccesses
    exact Option.isSome_of_eq_some htranslate
  refine ⟨inner, irqManager, contextId, ?_, hcontext, ?_, haccessible (.setThreshold hle)⟩
  . rw [DevState.controller, hplicPhandle]
    exact hentry
  . rw [← DevState.enableReg_of_lt inner contextId (show 8 < 32 by decide)]
    exact haccessible (.enable hle (by decide))

end

theorem VirtTree.exists_strategyReady
    : ∃ s', probeAllDevice (SortUnstable.insertionSort _) kernelEnd probers nodes start = .next s' ∧
        s'.StrategyReady .riscvVirtio 0 := by
  obtain ⟨s', hprobe⟩ := exists_probed
  have hcontext : getContextId .riscvVirtio 0 = .ok 1 := rfl
  exact ⟨s', hprobe, strategyReady_of_probeAllDevice (by decide) ⟨rfl, rfl, fun _ => rfl⟩ prepared suits hprobe
    (show plic ∈ nodes by decide) (by decide) rfl rfl rfl rfl hcontext (by decide)⟩

end Jrinx
