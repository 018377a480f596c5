import Jrinx.Driver.ProbeAll

/-!
This module contains what is registered when the probing of the devices is done: every interrupt of a node that a
prober has taken leads to a device, with its priority set, and there is no other.
-/

namespace Jrinx

variable {arch : Arch}

def FdtNode.handle (node : FdtNode) : Option Nat :=
  match node.phandle with
  | .value phandle => some phandle
  | _ => none

namespace DevProber

def Registers (as : List (DevProber × FdtNode)) (phandle irqNum : Nat) (dev : IrqDevice) : Prop :=
  ∃ a ∈ as, a.1.registers a.2 = some (phandle, irqNum, dev)

variable {as bs : List (DevProber × FdtNode)} {a : DevProber × FdtNode} {phandle irqNum : Nat} {dev : IrqDevice}

theorem registers_snoc
    : Registers (as ++ [a]) phandle irqNum dev ↔
        Registers as phandle irqNum dev ∨ a.1.registers a.2 = some (phandle, irqNum, dev) := by
  simp [Registers, or_and_right, exists_or]

end DevProber

open DevProber

structure DevState.Registered (as : List (DevProber × FdtNode)) (s : DevState arch) : Prop where
  range : ∀ {phandle inner irqManager}, s.irqTable phandle = some (inner, irqManager) →
    irqManager.irqRange = Plic.irqRange
  line : ∀ {phandle inner irqManager}, s.irqTable phandle = some (inner, irqManager) → ∀ {irqNum dev},
    Registers as phandle irqNum dev → Plic.isValid irqNum → (irqManager.table irqNum).isSome = true
  device : ∀ {phandle inner irqManager}, s.irqTable phandle = some (inner, irqManager) → ∀ {irqNum d},
    irqManager.table irqNum = some d →
      Plic.isValid irqNum ∧ ∃ dev, d = some dev ∧ Registers as phandle irqNum dev
  priority : ∀ {phandle inner irqManager}, s.irqTable phandle = some (inner, irqManager) → ∀ {irqNum dev},
    Registers as phandle irqNum dev → s.regs.read (inner.priorityBase.add irqNum) = 7

namespace IrqManager

variable {irqManager : IrqManager} {irqNum : Nat} {dev : IrqDevice}

theorem contains_iff (hrange : irqManager.irqRange = Plic.irqRange)
    : irqManager.contains irqNum ↔ Plic.isValid irqNum := by
  simp only [contains, Plic.isValid, hrange, Plic.irqRange]
  omega

theorem irqRange_registerDevice : (irqManager.registerDevice irqNum dev).irqRange = irqManager.irqRange := by
  rw [registerDevice]
  split <;> rfl

theorem table_registerDevice (hrange : irqManager.irqRange = Plic.irqRange) (irqNum' : Nat)
    : (irqManager.registerDevice irqNum dev).table irqNum' =
        if irqNum' = irqNum ∧ Plic.isValid irqNum then some (some dev) else irqManager.table irqNum' := by
  rw [registerDevice]
  simp only [contains_iff hrange]
  by_cases hvalid : Plic.isValid irqNum
  . simp [hvalid, Function.update_apply]
  . simp [hvalid]

end IrqManager

namespace DevState

variable {s s' : DevState arch} {sort : SortUnstable (@ExclusiveIntervals.byPosAndDelta arch.bits)}
  {kernelEnd : VirtAddr arch} {as bs : List (DevProber × FdtNode)} {a : DevProber × FdtNode}

theorem Probes.registers_cases (h : Probes sort kernelEnd s a s') (hplic : a.1 ≠ .plic)
    : (a.1.registers a.2 = none ∧ s'.irqTable = s.irqTable ∧ s'.regs = s.regs) ∨
        ∃ phandle irqNum dev inner irqManager, a.1.registers a.2 = some (phandle, irqNum, dev) ∧
          s.irqTable phandle = some (inner, irqManager) ∧
          s'.irqTable =
            Function.update s.irqTable phandle (some (inner, irqManager.registerDevice irqNum dev)) ∧
          s'.regs = s.regs.write (inner.priorityBase.add irqNum) 7 := by
  cases h with
  | intc node => exact Or.inl ⟨rfl, rfl, rfl⟩
  | plic hregion hphandle hmap hnew hmax => exact absurd rfl hplic
  | memory hreg hbounds => exact Or.inl ⟨rfl, rfl, rfl⟩
  | ns16550a hregion hirq hparent hmap htable hline =>
    exact Or.inr ⟨_, _, _, _, _, by simp only [registers, hparent, hirq]; rfl, htable, rfl, rfl⟩
  | virtioMmio hregion hirq hparent hmap hheader htransport =>
    exact Or.inl ⟨by simp only [registers], rfl, rfl⟩
  | virtioNet hregion hirq hparent hmap hheader htransport htable hline =>
    exact Or.inr ⟨_, _, _, _, _, by simp only [registers, htransport, hparent, hirq]; rfl, htable, rfl, rfl⟩

theorem Probes.keeps_priority (h : Probes sort kernelEnd s a s') (hplic : a.1 ≠ .plic) {m : Mmio arch}
    (hm : s.regs.read m = 7)
    : s'.regs.read m = 7 := by
  obtain ⟨_, _, hregs⟩ | ⟨_, _, _, _, _, _, _, _, hregs⟩ := h.registers_cases hplic
  . rwa [hregs]
  . rw [hregs, PlicRegs.read, PlicRegs.write, Function.update_apply]
    split
    next => rfl
    next => exact hm

theorem Probes.entry (h : Probes sort kernelEnd s a s') (hplic : a.1 ≠ .plic) {phandle : Nat}
    {inner : PlicInner arch} {irqManager' : IrqManager} (hentry : s'.irqTable phandle = some (inner, irqManager'))
    : ∃ irqManager, s.irqTable phandle = some (inner, irqManager) ∧
        ((irqManager' = irqManager ∧ ∀ irqNum dev, a.1.registers a.2 ≠ some (phandle, irqNum, dev)) ∨
          ∃ irqNum dev, a.1.registers a.2 = some (phandle, irqNum, dev) ∧
            irqManager' = irqManager.registerDevice irqNum dev ∧
            s'.regs.read (inner.priorityBase.add irqNum) = 7) := by
  obtain ⟨hnone, htable, _⟩ | ⟨phandle', irqNum, dev, inner', irqManager, hsome, hold, htable, hregs⟩ :=
    h.registers_cases hplic
  . rw [htable] at hentry
    exact ⟨irqManager', hentry, Or.inl ⟨rfl, by simp [hnone]⟩⟩
  . rw [htable, Function.update_apply] at hentry
    split at hentry
    next heq =>
      cases hentry
      refine ⟨irqManager, heq ▸ hold, Or.inr ⟨irqNum, dev, heq ▸ hsome, rfl, ?_⟩⟩
      rw [hregs, PlicRegs.read, PlicRegs.write, Function.update_self]
    next hne =>
      refine ⟨irqManager', hentry, Or.inl ⟨rfl, ?_⟩⟩
      intro irqNum' dev' hsome'
      rw [hsome, Option.some.injEq, Prod.mk.injEq] at hsome'
      exact hne hsome'.1.symm

theorem Registered.step (h : s.Registered as) (hprobes : Probes sort kernelEnd s a s') (hplic : a.1 ≠ .plic)
    : s'.Registered (as ++ [a]) := by
  constructor
  case range =>
    intro phandle inner irqManager' hentry
    obtain ⟨irqManager, hold, ⟨rfl, _⟩ | ⟨_, _, _, rfl, _⟩⟩ := hprobes.entry hplic hentry
    . exact h.range hold
    . exact IrqManager.irqRange_registerDevice.trans (h.range hold)
  case line =>
    intro phandle inner irqManager' hentry irqNum dev hregisters hvalid
    rw [registers_snoc] at hregisters
    obtain ⟨irqManager, hold, ⟨rfl, hno⟩ | ⟨irqNum', dev', hsome, rfl, _⟩⟩ := hprobes.entry hplic hentry
    . exact h.line hold (hregisters.resolve_right (hno irqNum dev)) hvalid
    . rw [IrqManager.table_registerDevice (h.range hold)]
      split
      next => rfl
      next hne =>
        obtain hregisters | hnew := hregisters
        . exact h.line hold hregisters hvalid
        . obtain ⟨_, rfl, _⟩ : phandle = phandle ∧ irqNum' = irqNum ∧ dev' = dev := by
            simpa [hsome] using hnew
          exact absurd ⟨rfl, hvalid⟩ hne
  case device =>
    intro phandle inner irqManager' hentry irqNum d hd
    obtain ⟨irqManager, hold, ⟨rfl, _⟩ | ⟨irqNum', dev', hsome, rfl, _⟩⟩ := hprobes.entry hplic hentry
    . obtain ⟨hvalid, dev, hdev, hregisters⟩ := h.device hold hd
      exact ⟨hvalid, dev, hdev, registers_snoc.mpr (Or.inl hregisters)⟩
    . rw [IrqManager.table_registerDevice (h.range hold)] at hd
      split at hd
      next hnew =>
        obtain ⟨rfl, hvalid⟩ := hnew
        exact ⟨hvalid, dev', (Option.some.inj hd).symm, registers_snoc.mpr (Or.inr hsome)⟩
      next =>
        obtain ⟨hvalid, dev, hdev, hregisters⟩ := h.device hold hd
        exact ⟨hvalid, dev, hdev, registers_snoc.mpr (Or.inl hregisters)⟩
  case priority =>
    intro phandle inner irqManager' hentry irqNum dev hregisters
    rw [registers_snoc] at hregisters
    obtain ⟨irqManager, hold, hcases⟩ := hprobes.entry hplic hentry
    obtain hregisters | hnew := hregisters
    . exact hprobes.keeps_priority hplic (h.priority hold hregisters)
    . obtain ⟨_, hno⟩ | ⟨irqNum', dev', hsome, _, hseven⟩ := hcases
      . exact absurd hnew (hno irqNum dev)
      . obtain ⟨_, rfl, _⟩ : phandle = phandle ∧ irqNum' = irqNum ∧ dev' = dev := by
          simpa [hsome] using hnew
        exact hseven

theorem Registered.run (h : s.Registered as) (hplic : ∀ a ∈ bs, a.1 ≠ .plic)
    (hexec : exec (DevState.probe sort kernelEnd) s bs = .next s')
    : s'.Registered (as ++ bs) := by
  induction hexec using exec_induction generalizing as with
  | nil => rwa [List.append_nil]
  | cons hprobe _ ih =>
    rw [List.append_cons]
    exact ih (h.step (probe_iff.mp hprobe) (hplic _ List.mem_cons_self))
      (fun a ha => hplic a (List.mem_cons_of_mem _ ha))

theorem Registered.congr (h : s.Registered as) (hmem : ∀ a, a ∈ as ↔ a ∈ bs) : s.Registered bs := by
  have hsame {phandle irqNum dev} : Registers bs phandle irqNum dev ↔ Registers as phandle irqNum dev := by
    simp only [Registers, hmem]
  constructor
  case range => exact h.range
  case line =>
    simp only [hsame]
    exact h.line
  case device =>
    simp only [hsame]
    exact h.device
  case priority =>
    simp only [hsame]
    exact h.priority

def Fresh (s : DevState arch) : Prop :=
  ∀ phandle inner irqManager, s.irqTable phandle = some (inner, irqManager) → irqManager = .new Plic.irqRange

theorem Fresh.registered (h : s.Fresh) (hnone : ∀ a ∈ as, a.1.registers a.2 = none) : s.Registered as := by
  have hno {phandle irqNum dev} : ¬ Registers as phandle irqNum dev := by
    rintro ⟨a, ha, hsome⟩
    rw [hnone a ha] at hsome
    cases hsome
  constructor
  case range =>
    intro phandle inner irqManager hentry
    rw [h _ _ _ hentry, IrqManager.new]
  case line =>
    intro _ _ _ _ _ _ hregisters
    exact absurd hregisters hno
  case device =>
    intro phandle inner irqManager hentry irqNum d hd
    rw [h _ _ _ hentry] at hd
    cases hd
  case priority =>
    intro _ _ _ _ _ _ hregisters
    exact absurd hregisters hno

theorem Fresh.step (h : s.Fresh) (hprobes : Probes sort kernelEnd s a s') (hnone : a.1.registers a.2 = none)
    : s'.Fresh := by
  by_cases hplic : a.1 = .plic
  . intro phandle inner irqManager hentry
    cases hprobes with
    | plic hregion hphandle hmap hnew hmax =>
      dsimp only at hentry
      rw [Function.update_apply] at hentry
      split at hentry
      next =>
        cases hentry
        rfl
      next => exact h _ _ _ hentry
    | intc | memory | ns16550a | virtioMmio | virtioNet => cases hplic
  . intro phandle inner irqManager' hentry
    obtain ⟨irqManager, hold, ⟨rfl, _⟩ | ⟨_, _, hsome, _⟩⟩ := hprobes.entry hplic hentry
    . exact h _ _ _ hold
    . rw [hnone] at hsome
      cases hsome

theorem Fresh.run (h : s.Fresh) (hnone : ∀ a ∈ bs, a.1.registers a.2 = none)
    (hexec : exec (DevState.probe sort kernelEnd) s bs = .next s')
    : s'.Fresh := by
  have hrun : Run (DevState.probe sort kernelEnd) (fun _ a => a.1.registers a.2 = none) s bs s' :=
    (Run.of_exec hexec).restrict fun a ha _ => hnone a ha
  apply hrun.invariant Fresh h
  intro s s' a hfresh hnone hstep
  exact hfresh.step (probe_iff.mp hstep) hnone

theorem Probes.globals (h : Probes sort kernelEnd s a s')
    : s'.globalIntc = (s.globalIntc || decide (a.1 = .intc)) ∧
        s'.plicPhandle = (s.plicPhandle <|> if a.1 = .plic then a.2.handle else none) := by
  cases h with
  | plic hregion hphandle hmap hnew hmax => simp [FdtNode.handle, hphandle]
  | intc | memory | ns16550a | virtioMmio | virtioNet => simp [registered]

theorem globals_of_exec (hexec : exec (DevState.probe sort kernelEnd) s bs = .next s')
    : s'.globalIntc = (s.globalIntc || bs.any fun a => decide (a.1 = .intc)) ∧
        s'.plicPhandle = (s.plicPhandle <|> (bs.filter (fun a => a.1 = .plic)).findSome? (·.2.handle)) := by
  induction hexec using exec_induction with
  | nil => simp
  | @cons s _ b bs hprobe _ ih =>
    obtain ⟨hintc, hplic⟩ := (probe_iff.mp hprobe).globals
    obtain ⟨hintc', hplic'⟩ := ih
    rw [hintc', hplic', hintc, hplic, List.any_cons, Bool.or_assoc]
    refine ⟨rfl, ?_⟩
    by_cases hb : b.1 = .plic
    . simp only [hb, List.filter_cons, decide_true, if_true, List.findSome?_cons]
      cases s.plicPhandle <;> cases b.2.handle <;> rfl
    . simp only [hb, List.filter_cons, decide_false, if_false, Bool.false_eq_true]
      cases s.plicPhandle <;> rfl

end DevState

structure DevState.Unprobed (s : DevState arch) : Prop where
  intc : s.globalIntc = false
  plic : s.plicPhandle = none
  table : ∀ phandle, s.irqTable phandle = none

structure DevState.Found (probers : List DevProber) (nodes : List FdtNode) (s : DevState arch) : Prop where
  intc : s.globalIntc = true ↔ ∃ node ∈ nodes, DevProber.intc.matches node = true
  plic : s.plicPhandle = (nodes.filter DevProber.plic.matches).findSome? FdtNode.handle
  handles : s.handles = plicHandles nodes
  registered : s.Registered (pairs probers nodes)

namespace DevState

variable {s s' : DevState arch} {sort : SortUnstable (@ExclusiveIntervals.byPosAndDelta arch.bits)}
  {kernelEnd : VirtAddr arch} {probers probers' rest : List DevProber} {nodes : List FdtNode}

theorem Unprobed.fresh (h : s.Unprobed) : s.Fresh := by
  intro phandle inner irqManager hentry
  rw [h.table] at hentry
  cases hentry

theorem registered_of_exec (hstart : s.Unprobed) (hnodup : (DevProber.intc :: .plic :: .memory :: rest).Nodup)
    (hexec : exec (DevState.probe sort kernelEnd) s (pairs (.intc :: .plic :: .memory :: rest) nodes) = .next s')
    : s'.Registered (pairs (.intc :: .plic :: .memory :: rest) nodes) := by
  have hfront : ∀ a ∈ pairs [.intc, .plic, .memory] nodes, a.1.registers a.2 = none := by
    rintro ⟨prober, node⟩ ha
    obtain rfl | rfl | rfl := three_of_mem_pairs ha <;> rfl
  rw [pairs_three] at hexec ⊢
  obtain ⟨s₁, hfirst, hlast⟩ := exec_append_iff.mp hexec
  have hcontrollers := (hstart.fresh.run hfront hfirst).registered hfront
  exact hcontrollers.run (fun a => ne_plic_of_mem_pairs hnodup) hlast

theorem found_of_exec (hstart : s.Unprobed) (hnodup : (DevProber.intc :: .plic :: .memory :: rest).Nodup)
    (hexec : exec (DevState.probe sort kernelEnd) s (pairs (.intc :: .plic :: .memory :: rest) nodes) = .next s')
    : s'.Found (.intc :: .plic :: .memory :: rest) nodes := by
  have hglobals := globals_of_exec hexec
  constructor
  case intc =>
    rw [hglobals.1, hstart.intc, Bool.false_or, List.any_eq_true]
    simp only [decide_eq_true_eq]
    constructor
    . rintro ⟨⟨prober, node⟩, ha, rfl⟩
      exact ⟨node, (mem_pairs.mp ha).2⟩
    . rintro ⟨node, hnode, hmatches⟩
      exact ⟨(.intc, node), mem_pairs.mpr ⟨by simp, hnode, hmatches⟩, rfl⟩
  case plic =>
    rw [hglobals.2, hstart.plic, pairs_filter hnodup (by simp), List.findSome?_map]
    rfl
  case handles =>
    have hempty : s.handles = ∅ := by
      simp [DevState.handles, hstart.table]
    have hfound : s'.handles = s.handles ∪ (stages arch nodes).added (pairs (.intc :: .plic :: .memory :: rest) nodes) :=
      Stages.exec_found (fun hprobe => (probe_iff.mp hprobe).handles) hexec
    rw [hfound, hempty, Set.empty_union, added_pairs (by simp)]
  case registered => exact registered_of_exec hstart hnodup hexec

theorem Found.perm (h : s.Found probers' nodes) (hperm : probers'.Perm probers) : s.Found probers nodes where
  intc := h.intc
  plic := h.plic
  handles := h.handles
  registered := h.registered.congr fun _ => mem_pairs_perm hperm

end DevState

/--
Whatever the order of the probers and of the nodes is: when the probing comes to its end, each interrupt that a
node of the tree names leads to a device at its controller, and no other does.
-/
theorem probeAllDevice_found (sort : SortUnstable (@ExclusiveIntervals.byPosAndDelta arch.bits))
    (kernelEnd : VirtAddr arch) {probers : List DevProber} {nodes : List FdtNode} {s s' : DevState arch}
    (hnodup : probers.Nodup) (hstart : s.Unprobed)
    (hprobe : probeAllDevice sort kernelEnd probers nodes s = .next s')
    : s'.Found probers nodes := by
  obtain ⟨rest, hperm, _, hexec⟩ := (probeAllDevice_iff sort kernelEnd).mp hprobe
  exact (DevState.found_of_exec hstart (hperm.nodup_iff.mpr hnodup) hexec).perm hperm

theorem probeAllDevice_found_virtTree
    : ∃ s', probeAllDevice (SortUnstable.insertionSort _) VirtTree.kernelEnd VirtTree.probers VirtTree.nodes
        VirtTree.start = .next s' ∧ s'.Found VirtTree.probers VirtTree.nodes := by
  obtain ⟨s', hprobe⟩ := VirtTree.exists_probed
  exact ⟨s', hprobe, probeAllDevice_found _ _ (by decide) ⟨rfl, rfl, fun _ => rfl⟩ hprobe⟩

end Jrinx
