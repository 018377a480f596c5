import Jrinx.Driver.InitStrategy
import Jrinx.Driver.Routing

/-!
This module connects the probing of the devices with the external interrupts: what the device tree says decides
which of the interrupts are handled later on.
-/

namespace Jrinx

variable {arch : Arch}

-- What the handling of interrupts begins with, the registers are those behind the base address.
def DevState.irqSystem (s : DevState arch) (rootCompatible : RootCompatible) (freq : Nat) (infoEnabled : Bool)
    : IrqSystem where
  mode := .release
  rootCompatible
  freq
  infoEnabled
  globalIntc := s.globalIntc
  plic := do
    let (inner, irqManager) ← s.irqTable (← s.plicPhandle)
    return { regs := fun word => s.regs (regAt inner.priorityBase.addr (4 * word)), irqManager, accesses := [] }
  irqCount := fun _ => none
  interruptCount := none
  sources := []

def IrqAction.KeepsDevices (a : IrqAction) : Prop :=
  match a with
  | .registerDevice _ _ => False
  | _ => True

namespace IrqSystem

variable {sys sys' : IrqSystem} {t : ExternalTrap}

def irqManager (sys : IrqSystem) : Option IrqManager := sys.plic.map (·.irqManager)

theorem registered_iff {irqManager : IrqManager} (h : sys.irqManager = some irqManager) (irqNum : Nat)
    : sys.Registered irqNum ↔ irqManager.Registered irqNum := by
  obtain ⟨plic, hplic, rfl⟩ := Option.map_eq_some_iff.mp h
  simp [Registered, hplic]

theorem irqManager_enable {cpuId irqNum : Nat} (h : sys.enable cpuId irqNum = .ok sys')
    : sys'.irqManager = sys.irqManager := by
  obtain ⟨plic, contextId, hplic, _, _, rfl⟩ := enable_eq_ok_iff.mp h
  simp [irqManager, hplic, Plic.write, Plic.setThreshold]

theorem irqManager_disable {cpuId irqNum : Nat} (h : sys.disable cpuId irqNum = .ok sys')
    : sys'.irqManager = sys.irqManager := by
  obtain ⟨plic, contextId, hplic, _, _, rfl⟩ := disable_eq_ok_iff.mp h
  simp [irqManager, hplic, Plic.write]

theorem irqManager_resetCount {irqNum : Nat} (h : sys.resetCount irqNum = .ok sys')
    : sys'.irqManager = sys.irqManager := by
  unfold resetCount at h
  simp only [Except.bind_eq_ok_iff, Except.pure_eq_ok_iff] at h
  obtain ⟨_, _, rfl⟩ := h
  rfl

theorem irqManager_handleKernTrap (hintc : sys.globalIntc = true) (h : sys.handleKernTrap t = .ok sys')
    : sys'.irqManager = sys.irqManager := by
  obtain ⟨_, _, _, startTime, hhandle, _⟩ := (handleKernTrap_eq_ok_iff hintc).mp h
  obtain ⟨sys₁, counts, n, count, hplic, _, _, _, rfl⟩ := intcHandleIrq_eq_ok_iff.mp hhandle
  obtain ⟨plic, contextId, hsome, _, ⟨_, _, rfl⟩ | ⟨_, _, _, _, _, _, _, rfl⟩⟩ := plicHandleIrq_eq_ok_iff.mp hplic
  . simp [irqManager, spurious, hsome]
  . simp [irqManager, claimed, hsome]

theorem irqManager_step (h : Inv sys) {a : IrqAction} (ha : a.KeepsDevices) (hstep : sys.step a = .next sys')
    : sys'.irqManager = sys.irqManager := by
  have hcall := Outcome.ofExcept_eq_next hstep
  cases a with
  | trap t =>
    simp only [call] at hcall
    split at hcall
    . exact irqManager_handleKernTrap h.globalIntc hcall
    . cases hcall
  | enable cpuId irqNum => exact irqManager_enable hcall
  | disable cpuId irqNum => exact irqManager_disable hcall
  | registerDevice irqNum dev => exact ha.elim
  | resetCount irqNum => exact irqManager_resetCount hcall

theorem inv_initStrategy {cpuId : Nat} (h : Inv sys) (hboot : sys.initStrategy cpuId = .ok sys')
    : Inv sys' ∧ sys'.irqManager = sys.irqManager := by
  unfold initStrategy at hboot
  obtain ⟨sys₁, henable, henable'⟩ := Except.bind_eq_ok_iff.mp hboot
  have hfirst : Inv { sys with irqCount := Function.update sys.irqCount 8 (some 0) } :=
    ⟨h.globalIntc, h.plic, h.sources, le_update_irqCount h (by decide)⟩
  constructor
  . apply inv_enable _ henable'
    apply inv_enable _ henable
    exact ⟨h.globalIntc, h.plic, h.sources, le_update_irqCount hfirst (by decide)⟩
  . rw [irqManager_enable henable', irqManager_enable henable]
    rfl

theorem exists_initStrategy {cpuId contextId : Nat} (hmode : sys.mode = .release) (hplic : sys.plic.isSome = true)
    (hcontext : getContextId sys.rootCompatible cpuId = .ok contextId)
    : ∃ plic sys', sys.initStrategy cpuId = .ok sys' ∧
        sys' = { sys with
          plic := some plic
          interruptCount := some (sys.interruptCount.getD (List.replicate cpuCount 0))
          irqCount := Function.update (Function.update sys.irqCount 8 (some 0)) 10 (some 0)
          sources := 10 :: 8 :: sys.sources } := by
  obtain ⟨plic, hplic⟩ := Option.isSome_iff_exists.mp hplic
  have hrelease {p : Prop} : sys.mode = .debug → p := by
    intro hdebug
    rw [hmode] at hdebug
    cases hdebug
  exact ⟨_, _, Except.bind_eq_ok_iff.mpr ⟨_, enable_eq_ok_iff.mpr ⟨plic, contextId, hplic, hcontext, hrelease, rfl⟩,
    enable_eq_ok_iff.mpr ⟨_, contextId, rfl, hcontext, hrelease, rfl⟩⟩, rfl⟩

end IrqSystem

theorem DevState.StrategyReady.isSome_plic {s : DevState arch} {rootCompatible : RootCompatible} {cpuId : Nat}
    (h : s.StrategyReady rootCompatible cpuId) (freq : Nat) (infoEnabled : Bool)
    : (s.irqSystem rootCompatible freq infoEnabled).plic.isSome = true := by
  obtain ⟨inner, irqManager, _, hcontroller, _⟩ := h
  obtain ⟨phandle, hphandle, hentry⟩ := Option.bind_eq_some_iff.mp hcontroller
  simp [irqSystem, hphandle, hentry]

theorem DevState.StrategyReady.exists_booted {s : DevState arch} {rootCompatible : RootCompatible} {cpuId : Nat}
    (h : s.StrategyReady rootCompatible cpuId) (freq : Nat) (infoEnabled : Bool)
    : ∃ booted, (s.irqSystem rootCompatible freq infoEnabled).initStrategy cpuId = .ok booted := by
  have hplic := h.isSome_plic freq infoEnabled
  obtain ⟨_, _, contextId, _, hcontext, _⟩ := h
  obtain ⟨_, booted, hbooted, _⟩ := IrqSystem.exists_initStrategy rfl hplic hcontext
  exact ⟨booted, hbooted⟩

open DevProber

variable {sort : SortUnstable (@ExclusiveIntervals.byPosAndDelta arch.bits)} {kernelEnd : VirtAddr arch}
  {probers : List DevProber} {nodes : List FdtNode} {s s' : DevState arch}

theorem DevState.Found.exists_entry (h : s.Found probers nodes) {phandle : Nat}
    (hphandle : (nodes.filter DevProber.plic.matches).findSome? FdtNode.handle = some phandle)
    : s.plicPhandle = some phandle ∧ ∃ inner irqManager, s.irqTable phandle = some (inner, irqManager) := by
  refine ⟨h.plic.trans hphandle, ?_⟩
  obtain ⟨node, hnode, hhandle⟩ := List.exists_of_findSome?_eq_some hphandle
  have hmem : phandle ∈ s.handles := by
    rw [h.handles]
    rw [List.mem_filter] at hnode
    refine ⟨node, hnode.1, hnode.2, ?_⟩
    rw [FdtNode.handle] at hhandle
    split at hhandle
    next hvalue => rw [hvalue, Option.some.inj hhandle]
    next => cases hhandle
  obtain ⟨⟨inner, irqManager⟩, hentry⟩ := Option.isSome_iff_exists.mp hmem
  exact ⟨inner, irqManager, hentry⟩

theorem DevState.Registered.registered_iff {as : List (DevProber × FdtNode)} (h : s.Registered as) {phandle : Nat}
    {inner : PlicInner arch} {irqManager : IrqManager} (hentry : s.irqTable phandle = some (inner, irqManager))
    (irqNum : Nat)
    : irqManager.Registered irqNum ↔ Plic.isValid irqNum ∧ ∃ dev, Registers as phandle irqNum dev := by
  rw [IrqManager.Registered, IrqManager.contains_iff (h.range hentry)]
  constructor
  . rintro ⟨hvalid, hsome⟩
    obtain ⟨d, hd⟩ := Option.isSome_iff_exists.mp hsome
    obtain ⟨_, dev, _, hregisters⟩ := h.device hentry hd
    exact ⟨hvalid, dev, hregisters⟩
  . rintro ⟨hvalid, dev, hregisters⟩
    exact ⟨hvalid, h.line hentry hregisters hvalid⟩

theorem DevState.Found.inv (h : s.Found probers nodes)
    (hintc : ∃ node ∈ nodes, DevProber.intc.matches node = true) {phandle : Nat}
    (hphandle : (nodes.filter DevProber.plic.matches).findSome? FdtNode.handle = some phandle)
    (rootCompatible : RootCompatible) (freq : Nat) (infoEnabled : Bool)
    : (s.irqSystem rootCompatible freq infoEnabled).Inv := by
  obtain ⟨hplic, inner, irqManager, hentry⟩ := h.exists_entry hphandle
  constructor
  case globalIntc => exact h.intc.mpr hintc
  case plic =>
    refine ⟨_, by simp only [irqSystem, hplic, hentry, Option.bind_eq_bind, Option.bind_some]; rfl, ?_⟩
    intro irqNum hnone
    obtain ⟨_, dev, hdev, _⟩ := h.registered.device hentry hnone
    cases hdev
  case sources => exact fun hdebug => by cases hdebug
  case irqCount =>
    intro irqNum n hn
    cases hn

theorem DevState.Found.irqManager_irqSystem (h : s.Found probers nodes) {phandle : Nat}
    (hphandle : (nodes.filter DevProber.plic.matches).findSome? FdtNode.handle = some phandle)
    (rootCompatible : RootCompatible) (freq : Nat) (infoEnabled : Bool)
    : ∃ inner irqManager, s.irqTable phandle = some (inner, irqManager) ∧
        (s.irqSystem rootCompatible freq infoEnabled).irqManager = some irqManager := by
  obtain ⟨hplic, inner, irqManager, hentry⟩ := h.exists_entry hphandle
  refine ⟨inner, irqManager, hentry, ?_⟩
  simp only [IrqSystem.irqManager, irqSystem, hplic, hentry, Option.bind_eq_bind, Option.bind_some]
  rfl

/--
From the device tree to the traps: after the probing and the start of the strategy, whatever is enabled and
disabled and whatever traps there are, the next trap is handled exactly if it is safe, and a source has a device
exactly if a node of the tree names it at the first controller.
-/
theorem completes_iff_of_probeAllDevice (hnodup : probers.Nodup) (hstart : s.Unprobed)
    (hprobe : probeAllDevice sort kernelEnd probers nodes s = .next s')
    (hintc : ∃ node ∈ nodes, DevProber.intc.matches node = true) {phandle : Nat}
    (hphandle : (nodes.filter DevProber.plic.matches).findSome? FdtNode.handle = some phandle)
    {rootCompatible : RootCompatible} {freq : Nat} {infoEnabled : Bool} {cpuId : Nat} {booted sys : IrqSystem}
    {as : List IrqAction} {t : ExternalTrap}
    (hboot : (s'.irqSystem rootCompatible freq infoEnabled).initStrategy cpuId = .ok booted)
    (hrun : Run IrqSystem.step (fun _ a => a.KeepsDevices) booted as sys) (hpossible : sys.Possible t)
    : ((∃ sys', sys.Completes t sys') ↔ sys.TrapSafe t) ∧
        ∀ irqNum, sys.Registered irqNum ↔
          Plic.isValid irqNum ∧ ∃ dev, Registers (pairs probers nodes) phandle irqNum dev := by
  obtain ⟨rest, hperm, _, hexec⟩ := (probeAllDevice_iff sort kernelEnd).mp hprobe
  have hfound := (DevState.found_of_exec hstart (hperm.nodup_iff.mpr hnodup) hexec).perm hperm
  obtain ⟨inner, irqManager, hentry, hmanager⟩ :=
    hfound.irqManager_irqSystem hphandle rootCompatible freq infoEnabled
  obtain ⟨hinv, hbooted⟩ := IrqSystem.inv_initStrategy (hfound.inv hintc hphandle _ _ _) hboot
  have h : sys.Inv ∧ sys.irqManager = some irqManager := by
    apply hrun.invariant (fun sys => sys.Inv ∧ sys.irqManager = some irqManager) ⟨hinv, hbooted.trans hmanager⟩
    rintro sys sys' a ⟨hinv, hsame⟩ ha hstep
    exact ⟨IrqSystem.inv_step hinv hstep, (IrqSystem.irqManager_step hinv ha hstep).trans hsame⟩
  constructor
  . constructor
    . rintro ⟨sys', hcompletes⟩
      exact IrqSystem.trapSafe_of_completes h.1 hcompletes
    . exact IrqSystem.completes_of_trapSafe h.1 hpossible
  . intro irqNum
    rw [IrqSystem.registered_iff h.2, hfound.registered.registered_iff hentry]

-- A character on the serial port, and then a claim that finds nothing.
theorem completes_iff_of_probeAllDevice_virtTree
    : ∃ s' booted sys, probeAllDevice (SortUnstable.insertionSort _) VirtTree.kernelEnd VirtTree.probers VirtTree.nodes
        VirtTree.start = .next s' ∧
        (s'.irqSystem .riscvVirtio 10000000 true).initStrategy 0 = .ok booted ∧
        Run IrqSystem.step (fun _ a => a.KeepsDevices) booted [.trap IrqSystem.uartTrap] sys ∧
        sys.Possible IrqSystem.spuriousTrap ∧
        ((∃ sys', sys.Completes IrqSystem.spuriousTrap sys') ↔ sys.TrapSafe IrqSystem.spuriousTrap) ∧
        sys.Registered 10 := by
  have hintc : ∃ node ∈ VirtTree.nodes, DevProber.intc.matches node = true := ⟨VirtTree.intc, by decide, by decide⟩
  obtain ⟨s', hprobe, hready⟩ := VirtTree.exists_strategyReady
  obtain ⟨plic, booted, hboot, heq⟩ := IrqSystem.exists_initStrategy rfl (hready.isSome_plic 10000000 true)
    (show getContextId .riscvVirtio 0 = .ok 1 from rfl)
  have hpossible : booted.Possible IrqSystem.uartTrap := by
    rw [IrqSystem.Possible, heq]
    exact ⟨by decide, Or.inr List.mem_cons_self⟩
  obtain ⟨hfirst, hregistered⟩ := completes_iff_of_probeAllDevice (by decide) ⟨rfl, rfl, fun _ => rfl⟩ hprobe hintc rfl
    hboot (.nil booted) hpossible
  have hserial : booted.Registered 10 :=
    (hregistered 10).mpr ⟨by decide, .ns16550a, (.ns16550a, VirtTree.serial), by decide, rfl⟩
  have hfinish : Cpu.getTime 10000000 10000000 ≤ Cpu.getTime 10000000 10000100 := by decide
  have hhandler : Cpu.getTime 10000000 10000000 ≤ Cpu.getTime 10000000 10000050 := by decide
  have hsafe : booted.TrapSafe IrqSystem.uartTrap := by
    subst heq
    exact
      { root := .inl rfl
        interruptCount := ⟨0, rfl, by decide⟩
        irqCount := fun _ => ⟨0, rfl, by decide⟩
        noWrap := hfinish
        noOverflow := fun hdebug => by cases hdebug
        logged := fun _ => .inl ⟨hserial, hhandler⟩ }
  obtain ⟨sys, hcompletes⟩ := hfirst.mpr hsafe
  have hrun : Run IrqSystem.step (fun _ a => a.KeepsDevices) booted [.trap IrqSystem.uartTrap] sys := by
    refine .cons trivial ?_ (.nil sys)
    rw [IrqSystem.step, IrqSystem.call, if_pos hpossible, hcompletes.returns]
    rfl
  have hpossible' : sys.Possible IrqSystem.spuriousTrap := ⟨by decide, Or.inl rfl⟩
  obtain ⟨hiff, hregistered'⟩ := completes_iff_of_probeAllDevice (by decide) ⟨rfl, rfl, fun _ => rfl⟩ hprobe hintc rfl
    hboot hrun hpossible'
  exact ⟨s', booted, sys, hprobe, hboot, hrun, hpossible', hiff, (hregistered' 10).mpr ((hregistered 10).mp hserial)⟩

end Jrinx
