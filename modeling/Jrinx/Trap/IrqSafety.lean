import Jrinx.Trap.ExternalInt

/-!
This module contains when the handling of an external interrupt comes to its end.
-/

namespace Jrinx

theorem IrqM.unwrap_eq_ok_iff {α : Type} {o : Option α} {a : α} : IrqM.unwrap o = .ok a ↔ o = some a := by
  cases o with
  | some b => exact Except.pure_eq_ok_iff.trans Option.some_inj.symm
  | none =>
    constructor
    . intro h
      cases h
    . simp

theorem Duration.subM_eq_ok {a b : Duration} (h : b ≤ a) : ∃ d, a.subM b = .ok d := by
  unfold subM sub
  rw [if_pos (Duration.le_def.mp h)]
  exact ⟨_, rfl⟩

theorem Duration.le_of_subM {a b d : Duration} (h : a.subM b = .ok d) : b ≤ a := by
  unfold subM at h
  split at h
  . next d' hsub =>
    rw [Duration.le_def, Duration.sub_eq_some.mp hsub]
    omega
  . cases h

namespace BuildMode

variable {mode : BuildMode}

theorem debugAssert_eq_ok_iff {p : Prop} [Decidable p]
    : mode.debugAssert p = .ok () ↔ (mode = .debug → p) :=
  check_eq_ok_iff

theorem getTime_eq_ok_iff {freq ticks : Nat} {d : Duration}
    : mode.getTime freq ticks = .ok d ↔
        (mode = .debug → freq ≠ 0 → ticks * 10 ^ 9 < 2 ^ 64) ∧ Cpu.getTime freq ticks = d := by
  unfold getTime
  split
  . next h =>
    constructor
    . intro h
      cases h
    . rintro ⟨himp, _⟩
      exact absurd (himp h.1 h.2.1) (by omega)
  . next h =>
    simp only [not_and, not_le] at h
    rw [Except.pure_eq_ok_iff]
    exact ⟨fun heq => ⟨h, heq⟩, fun heq => heq.2⟩

theorem addU8_eq_ok_iff {n m : Nat} : mode.addU8 n m = .ok (n + m) ↔ n + m < 2 ^ 8 := by
  unfold addU8
  split
  . next h => exact ⟨fun _ => h, fun _ => rfl⟩
  . next h =>
    cases mode with
    | debug => exact ⟨fun h' => (by cases h'), fun h' => absurd h' h⟩
    | release =>
      have hlt : (n + m) % 2 ^ 8 < 2 ^ 8 := Nat.mod_lt _ (by decide)
      rw [Except.pure_eq_ok_iff]
      omega

theorem addI32_eq_ok_iff {n m : Int} : mode.addI32 n m = .ok (n + m) ↔ -2 ^ 31 ≤ n + m ∧ n + m < 2 ^ 31 := by
  unfold addI32
  split
  . next h => exact ⟨fun _ => h, fun _ => rfl⟩
  . next h =>
    cases mode with
    | debug => exact ⟨fun h' => (by cases h'), fun h' => absurd h' h⟩
    | release =>
      have hle := Int.le_bmod (x := n + m) (m := 2 ^ 32) (by decide)
      have hlt := Int.bmod_lt (x := n + m) (m := 2 ^ 32) (by decide)
      rw [Except.pure_eq_ok_iff]
      omega

theorem le_of_addI32 {n m k : Int} (h : mode.addI32 n m = .ok k) : -2 ^ 31 ≤ k := by
  unfold addI32 at h
  split at h
  . next hrange =>
    cases h
    exact hrange.1
  . cases mode with
    | debug => cases h
    | release =>
      cases h
      exact Int.le_bmod (x := n + m) (m := 2 ^ 32) (by decide)

end BuildMode

namespace IrqManager

variable {manager : IrqManager} {mode : BuildMode} {freq ticks irqNum : Nat}

def Registered (manager : IrqManager) (irqNum : Nat) : Prop :=
  manager.contains irqNum ∧ (manager.table irqNum).isSome = true

instance (manager : IrqManager) (irqNum : Nat) : Decidable (manager.Registered irqNum) :=
  inferInstanceAs (Decidable (_ ∧ _))

def Filled (manager : IrqManager) : Prop := ∀ irqNum, manager.table irqNum ≠ some none

theorem handleIrq_of_registered (hfilled : manager.Filled) (h : manager.Registered irqNum)
    : manager.handleIrq mode freq ticks irqNum = mode.getTime freq ticks := by
  obtain ⟨hcontains, hsome⟩ := h
  rw [handleIrq, if_pos hcontains]
  split
  . next dev hdev =>
    cases dev with
    | none => exact absurd hdev (hfilled irqNum)
    | some dev => cases dev <;> rfl
  . next hnone => simp [hnone] at hsome

theorem handleIrq_of_not_registered (h : ¬ manager.Registered irqNum)
    : manager.handleIrq mode freq ticks irqNum = .ok .zero := by
  unfold handleIrq
  split
  . next hcontains =>
    split
    . next hdev => exact absurd ⟨hcontains, by simp [hdev]⟩ h
    . rfl
  . rfl

theorem filled_registerDevice (h : manager.Filled) (irqNum : Nat) (dev : IrqDevice)
    : (manager.registerDevice irqNum dev).Filled := by
  unfold registerDevice
  split
  . intro irqNum'
    simp only [Function.update_apply]
    split
    . simp
    . exact h irqNum'
  . exact h

end IrqManager

namespace IrqSystem

variable {sys sys' : IrqSystem} {t : ExternalTrap}

structure Inv (sys : IrqSystem) : Prop where
  globalIntc : sys.globalIntc = true
  plic : ∃ plic, sys.plic = some plic ∧ plic.irqManager.Filled
  sources : sys.mode = .debug → ∀ irqNum ∈ sys.sources, Plic.isValid irqNum
  irqCount : ∀ {irqNum n}, sys.irqCount irqNum = some n → -2 ^ 31 ≤ n

def time (sys : IrqSystem) (ticks : Nat) : Duration := Cpu.getTime sys.freq ticks

-- The ticks fit into the integers of a debug build.
def NoOverflow (sys : IrqSystem) (ticks : Nat) : Prop :=
  sys.mode = .debug → sys.freq ≠ 0 → ticks * 10 ^ 9 < 2 ^ 64

def Registered (sys : IrqSystem) (irqNum : Nat) : Prop :=
  ∃ plic, sys.plic = some plic ∧ plic.irqManager.Registered irqNum

def accesses (sys : IrqSystem) : List ClaimAccess := sys.plic.elim [] (·.accesses)

def countOf (sys : IrqSystem) (cpuId : Nat) : Option Nat := sys.interruptCount.bind (·[cpuId]?)

/--
The handling returns, the counters count one more interrupt, and what was claimed is completed once on the
context that claimed it.
-/
structure Completes (sys : IrqSystem) (t : ExternalTrap) (sys' : IrqSystem) : Prop where
  returns : sys.handleKernTrap t = .ok sys'
  accesses : ∃ contextId, getContextId sys.rootCompatible t.cpuId = .ok contextId ∧
    sys'.accesses = sys.accesses ++
      .claim contextId t.claim :: if t.claim = 0 then [] else [.complete contextId t.claim]
  interruptCount : ∃ n, sys.countOf t.cpuId = some n ∧ sys'.countOf t.cpuId = some (n + 1)
  irqCount : t.claim ≠ 0 → ∃ n, sys.irqCount t.claim = some n ∧ sys'.irqCount t.claim = some (n + 1)

/--
The machine and the CPU are known, there is room in both counters, the clock does not wrap around, and if
the times are logged then there is a device for the source or the clock is still at zero.
-/
structure TrapSafe (sys : IrqSystem) (t : ExternalTrap) : Prop where
  root : sys.rootCompatible = .riscvVirtio ∨ sys.rootCompatible = .sifive ∧ t.cpuId ≠ 0
  interruptCount : ∃ n, sys.countOf t.cpuId = some n ∧ n < 2 ^ 8 - 1
  irqCount : t.claim ≠ 0 → ∃ n, sys.irqCount t.claim = some n ∧ n < 2 ^ 31 - 1
  noWrap : sys.time t.startTicks ≤ sys.time t.finishTicks
  noOverflow : sys.NoOverflow t.finishTicks
  logged : sys.infoEnabled = true →
    sys.Registered t.claim ∧ sys.time t.startTicks ≤ sys.time t.handlerTicks ∨
      sys.time t.startTicks = .zero

theorem getContextId_isOk {root : RootCompatible} {cpuId : Nat}
    : (∃ contextId, getContextId root cpuId = .ok contextId) ↔
        root = .riscvVirtio ∨ root = .sifive ∧ cpuId ≠ 0 := by
  cases root with
  | riscvVirtio => exact ⟨fun _ => .inl rfl, fun _ => ⟨_, rfl⟩⟩
  | sifive =>
    simp only [getContextId, reduceCtorEq, false_or, true_and]
    split
    . next h => exact ⟨fun ⟨_, herr⟩ => (by cases herr), fun hne => absurd h hne⟩
    . next h => exact ⟨fun _ => h, fun _ => ⟨_, rfl⟩⟩
  | other => exact ⟨fun ⟨_, herr⟩ => (by cases herr), fun h => (by simp at h)⟩

-- What the controller leaves behind after it has claimed a source, where `count` is the new count of it.
def claimed (sys : IrqSystem) (plic : Plic) (contextId irqNum : Nat) (count : Int) : IrqSystem :=
  {
    sys with
    plic := some
      {
        plic with
        accesses := plic.accesses ++ [.claim contextId irqNum] ++ [.complete contextId irqNum]
      }
    irqCount := Function.update sys.irqCount irqNum (some count)
  }

def spurious (sys : IrqSystem) (plic : Plic) (contextId : Nat) : IrqSystem :=
  { sys with plic := some { plic with accesses := plic.accesses ++ [.claim contextId 0] } }

theorem plicHandleIrq_eq_ok_iff {startTime : Duration}
    : sys.plicHandleIrq t = .ok (startTime, sys') ↔
        ∃ plic contextId, sys.plic = some plic ∧
          getContextId sys.rootCompatible t.cpuId = .ok contextId ∧
          (t.claim = 0 ∧ startTime = .zero ∧ sys' = sys.spurious plic contextId ∨
            t.claim ≠ 0 ∧ ∃ n count, sys.irqCount t.claim = some n ∧ sys.mode.addI32 n 1 = .ok count ∧
              plic.irqManager.handleIrq sys.mode sys.freq t.handlerTicks t.claim = .ok startTime ∧
              (sys.mode = .debug → Plic.isValid t.claim) ∧
              sys' = sys.claimed plic contextId t.claim count) := by
  unfold plicHandleIrq Plic.getCurrentCpuClaim Plic.endOfInterrupt
  simp only [Except.bind_eq_ok_iff, Except.pure_eq_ok_iff, IrqM.unwrap_eq_ok_iff]
  constructor
  . rintro ⟨plic, hplic, r, ⟨contextId, hcontext, rfl⟩, h⟩
    refine ⟨plic, contextId, hplic, hcontext, ?_⟩
    by_cases hclaim : t.claim = 0
    . simp only [hclaim, if_true, Except.pure_eq_ok_iff, Prod.mk.injEq] at h
      exact .inl ⟨hclaim, h.1.symm, h.2.symm⟩
    . simp only [hclaim, if_false, Except.bind_eq_ok_iff, Except.pure_eq_ok_iff,
        IrqM.unwrap_eq_ok_iff] at h
      obtain ⟨n, hn, count, hcount, d, hd, plic', ⟨_, hassert, _, hcontext', rfl⟩, h⟩ := h
      cases hcontext.symm.trans hcontext'
      cases h
      exact .inr ⟨hclaim, n, count, hn, hcount, hd, BuildMode.debugAssert_eq_ok_iff.mp hassert, rfl⟩
  . rintro ⟨plic, contextId, hplic, hcontext,
      ⟨hclaim, rfl, rfl⟩ | ⟨hclaim, n, count, hn, hcount, hd, hassert, rfl⟩⟩
    . refine ⟨plic, hplic, _, ⟨contextId, hcontext, rfl⟩, ?_⟩
      simp only [hclaim, if_true]
      rfl
    . refine ⟨plic, hplic, _, ⟨contextId, hcontext, rfl⟩, ?_⟩
      simp only [hclaim, if_false, Except.bind_eq_ok_iff, Except.pure_eq_ok_iff,
        IrqM.unwrap_eq_ok_iff]
      exact ⟨n, hn, count, hcount, _, hd, _,
        ⟨(), BuildMode.debugAssert_eq_ok_iff.mpr hassert, contextId, hcontext, rfl⟩, rfl⟩

theorem intcHandleIrq_eq_ok_iff {startTime : Duration}
    : sys.intcHandleIrq t = .ok (startTime, sys') ↔
        ∃ sys₁ counts n count, sys.plicHandleIrq t = .ok (startTime, sys₁) ∧
          sys₁.interruptCount = some counts ∧ counts[t.cpuId]? = some n ∧
          sys₁.mode.addU8 n 1 = .ok count ∧
          sys' = { sys₁ with interruptCount := some (counts.set t.cpuId count) } := by
  unfold intcHandleIrq
  simp only [Except.bind_eq_ok_iff, Except.pure_eq_ok_iff, IrqM.unwrap_eq_ok_iff]
  constructor
  . rintro ⟨⟨d, sys₁⟩, hplic, counts, hcounts, n, hn, count, hcount, h⟩
    cases h
    exact ⟨sys₁, counts, n, count, hplic, hcounts, hn, hcount, rfl⟩
  . rintro ⟨sys₁, counts, n, count, hplic, hcounts, hn, hcount, rfl⟩
    exact ⟨_, hplic, counts, hcounts, n, hn, count, hcount, rfl⟩

theorem frame_of_intcHandleIrq {startTime : Duration} (h : sys.intcHandleIrq t = .ok (startTime, sys'))
    : sys'.mode = sys.mode ∧ sys'.freq = sys.freq ∧ sys'.infoEnabled = sys.infoEnabled ∧
        sys'.globalIntc = sys.globalIntc ∧ sys'.sources = sys.sources := by
  obtain ⟨sys₁, counts, n, count, hplic, _, _, _, rfl⟩ := intcHandleIrq_eq_ok_iff.mp h
  obtain ⟨plic, contextId, _, _, ⟨_, _, rfl⟩ | ⟨_, _, _, _, _, _, _, rfl⟩⟩ :=
    plicHandleIrq_eq_ok_iff.mp hplic
  . exact ⟨rfl, rfl, rfl, rfl, rfl⟩
  . exact ⟨rfl, rfl, rfl, rfl, rfl⟩

theorem handleKernTrap_eq_ok_iff (hintc : sys.globalIntc = true)
    : sys.handleKernTrap t = .ok sys' ↔
        sys.NoOverflow t.startTicks ∧ sys.NoOverflow t.finishTicks ∧
          sys.time t.startTicks ≤ sys.time t.finishTicks ∧
          ∃ startTime, sys.intcHandleIrq t = .ok (startTime, sys') ∧
            (sys.infoEnabled = true → sys.time t.startTicks ≤ startTime) := by
  unfold handleKernTrap
  simp only [hintc, Bool.true_eq_false, if_false, Except.bind_eq_ok_iff, BuildMode.getTime_eq_ok_iff]
  constructor
  . rintro ⟨_, ⟨hstart, rfl⟩, ⟨startTime, sys₁⟩, hintc', _, ⟨hfinish, rfl⟩, _, hsub, h⟩
    obtain ⟨hmode, hfreq, hinfo, _⟩ := frame_of_intcHandleIrq hintc'
    simp only [hmode, hfreq] at hfinish hsub
    simp only [hinfo] at h
    have hle := Duration.le_of_subM hsub
    split at h
    . next hlogged =>
      obtain ⟨_, hsub', h⟩ := Except.bind_eq_ok_iff.mp h
      cases h
      exact ⟨hstart, hfinish, hle, startTime, hintc', fun _ => Duration.le_of_subM hsub'⟩
    . next hquiet =>
      cases h
      exact ⟨hstart, hfinish, hle, startTime, hintc', fun hlogged => absurd hlogged hquiet⟩
  . rintro ⟨hstart, hfinish, hle, startTime, hintc', hlogged⟩
    obtain ⟨hmode, hfreq, hinfo, _⟩ := frame_of_intcHandleIrq hintc'
    obtain ⟨processTime, hsub⟩ := Duration.subM_eq_ok hle
    refine ⟨_, ⟨hstart, rfl⟩, _, hintc', _, ⟨?_, rfl⟩, processTime, ?_, ?_⟩
    . rw [hmode, hfreq]
      exact hfinish
    . rw [hfreq]
      exact hsub
    . rw [hinfo]
      split
      . next hinfo' =>
        obtain ⟨_, hsub'⟩ := Duration.subM_eq_ok (hlogged hinfo')
        exact Except.bind_eq_ok_iff.mpr ⟨_, hsub', rfl⟩
      . rfl

theorem NoOverflow.mono {ticks ticks' : Nat} (h : sys.NoOverflow ticks') (hle : ticks ≤ ticks')
    : sys.NoOverflow ticks := by
  unfold NoOverflow at *
  intro hmode hfreq
  exact Nat.lt_of_le_of_lt (Nat.mul_le_mul_right _ hle) (h hmode hfreq)

theorem startTime_of_plicHandleIrq (h : Inv sys) {startTime : Duration}
    (hplic : sys.plicHandleIrq t = .ok (startTime, sys'))
    : sys.Registered t.claim ∧ startTime = sys.time t.handlerTicks ∨
        ¬ sys.Registered t.claim ∧ startTime = .zero := by
  obtain ⟨plic, hsome, hfilled⟩ := h.plic
  have hreg : sys.Registered t.claim ↔ plic.irqManager.Registered t.claim := by
    simp [Registered, hsome]
  rw [hreg]
  obtain ⟨plic', contextId, hsome', _, ⟨hclaim, rfl, _⟩ | ⟨_, n, count, _, _, htime, _, _⟩⟩ :=
    plicHandleIrq_eq_ok_iff.mp hplic
  . exact .inr ⟨fun hreg => hreg.1.2 hclaim, rfl⟩
  . cases hsome.symm.trans hsome'
    by_cases hreg : plic.irqManager.Registered t.claim
    . rw [IrqManager.handleIrq_of_registered hfilled hreg, BuildMode.getTime_eq_ok_iff] at htime
      exact .inl ⟨hreg, htime.2.symm⟩
    . rw [IrqManager.handleIrq_of_not_registered hreg] at htime
      cases htime
      exact .inr ⟨hreg, rfl⟩

theorem trapSafe_of_completes (h : Inv sys) (hcompletes : sys.Completes t sys') : sys.TrapSafe t := by
  obtain ⟨_, hfinish, hle, startTime, hintc, hlogged⟩ :=
    (handleKernTrap_eq_ok_iff h.globalIntc).mp hcompletes.returns
  obtain ⟨sys₁, counts, n, count, hplic, hcounts, hn, hcount, rfl⟩ := intcHandleIrq_eq_ok_iff.mp hintc
  obtain ⟨contextId, hcontext, _⟩ := hcompletes.accesses
  have hshape := plicHandleIrq_eq_ok_iff.mp hplic
  have hsame : sys₁.interruptCount = sys.interruptCount ∧ sys₁.mode = sys.mode := by
    obtain ⟨_, _, _, _, ⟨_, _, rfl⟩ | ⟨_, _, _, _, _, _, _, rfl⟩⟩ := hshape
    . exact ⟨rfl, rfl⟩
    . exact ⟨rfl, rfl⟩
  constructor
  case root => exact getContextId_isOk.mp ⟨contextId, hcontext⟩
  case noWrap => exact hle
  case noOverflow => exact hfinish
  case interruptCount =>
    obtain ⟨k, hk, hk'⟩ := hcompletes.interruptCount
    refine ⟨k, hk, ?_⟩
    rw [hsame.1] at hcounts
    simp only [countOf, hcounts, Option.bind_some, hn, Option.some.injEq] at hk
    subst hk
    have hlt : t.cpuId < counts.length := (List.getElem?_eq_some_iff.mp hn).1
    simp only [countOf, Option.bind_some, List.getElem?_set_self hlt, Option.some.injEq] at hk'
    rw [hk'] at hcount
    have := BuildMode.addU8_eq_ok_iff.mp hcount
    omega
  case irqCount =>
    intro hne
    obtain ⟨k, hk, hk'⟩ := hcompletes.irqCount hne
    refine ⟨k, hk, ?_⟩
    obtain ⟨_, _, _, _, ⟨hclaim, _⟩ | ⟨_, m, count', hm, hcount', _, _, rfl⟩⟩ := hshape
    . exact absurd hclaim hne
    . cases hm.symm.trans hk
      simp only [claimed, Function.update_self, Option.some.injEq] at hk'
      rw [hk'] at hcount'
      have := BuildMode.addI32_eq_ok_iff.mp hcount'
      omega
  case logged =>
    intro hinfo
    have hstart := hlogged hinfo
    rcases startTime_of_plicHandleIrq h hplic with ⟨hreg, rfl⟩ | ⟨_, rfl⟩
    . exact .inl ⟨hreg, hstart⟩
    . exact .inr (Duration.eq_of_nanos (Nat.le_zero.mp hstart))

theorem plicHandleIrq_of_trapSafe (h : Inv sys) (hpossible : sys.Possible t) (hsafe : sys.TrapSafe t)
    : ∃ startTime sys₁, sys.plicHandleIrq t = .ok (startTime, sys₁) ∧
        sys₁.interruptCount = sys.interruptCount ∧ sys₁.mode = sys.mode ∧
        (∃ contextId, getContextId sys.rootCompatible t.cpuId = .ok contextId ∧
          sys₁.accesses = sys.accesses ++
            .claim contextId t.claim :: if t.claim = 0 then [] else [.complete contextId t.claim]) ∧
        (t.claim ≠ 0 →
          ∃ n, sys.irqCount t.claim = some n ∧ sys₁.irqCount t.claim = some (n + 1)) := by
  obtain ⟨plic, hplic, hfilled⟩ := h.plic
  obtain ⟨contextId, hcontext⟩ := getContextId_isOk.mpr hsafe.root
  have haccesses : sys.accesses = plic.accesses := by simp [accesses, hplic]
  by_cases hclaim : t.claim = 0
  . refine ⟨.zero, sys.spurious plic contextId, ?_, rfl, rfl, ⟨contextId, hcontext, ?_⟩,
      fun hne => absurd hclaim hne⟩
    . exact plicHandleIrq_eq_ok_iff.mpr ⟨plic, contextId, hplic, hcontext, .inl ⟨hclaim, rfl, rfl⟩⟩
    . rw [haccesses, hclaim]
      rfl
  . obtain ⟨n, hn, hlt⟩ := hsafe.irqCount hclaim
    have hcount : sys.mode.addI32 n 1 = .ok (n + 1) := by
      have := h.irqCount hn
      exact BuildMode.addI32_eq_ok_iff.mpr (by omega)
    have hvalid : sys.mode = .debug → Plic.isValid t.claim :=
      fun hdebug => h.sources hdebug t.claim (hpossible.2.resolve_left hclaim)
    have htime : ∃ startTime, plic.irqManager.handleIrq sys.mode sys.freq t.handlerTicks t.claim =
        .ok startTime := by
      by_cases hreg : plic.irqManager.Registered t.claim
      . rw [IrqManager.handleIrq_of_registered hfilled hreg]
        have hticks := NoOverflow.mono hsafe.noOverflow hpossible.1.2
        exact ⟨_, BuildMode.getTime_eq_ok_iff.mpr ⟨hticks, rfl⟩⟩
      . exact ⟨_, IrqManager.handleIrq_of_not_registered hreg⟩
    obtain ⟨startTime, htime⟩ := htime
    refine ⟨startTime, sys.claimed plic contextId t.claim (n + 1), ?_, rfl, rfl,
      ⟨contextId, hcontext, ?_⟩, fun _ => ⟨n, hn, ?_⟩⟩
    . exact plicHandleIrq_eq_ok_iff.mpr
        ⟨plic, contextId, hplic, hcontext, .inr ⟨hclaim, n, n + 1, hn, hcount, htime, hvalid, rfl⟩⟩
    . rw [haccesses, if_neg hclaim]
      simp [accesses, claimed]
    . simp [claimed]

theorem completes_of_trapSafe (h : Inv sys) (hpossible : sys.Possible t) (hsafe : sys.TrapSafe t)
    : ∃ sys', sys.Completes t sys' := by
  obtain ⟨startTime, sys₁, hplic, hcounts, hmode, haccesses, hirqCount⟩ :=
    plicHandleIrq_of_trapSafe h hpossible hsafe
  obtain ⟨n, hn, hlt⟩ := hsafe.interruptCount
  obtain ⟨counts, hsome, hget⟩ := Option.bind_eq_some_iff.mp hn
  have hcpu : t.cpuId < counts.length := (List.getElem?_eq_some_iff.mp hget).1
  have hcount : sys₁.mode.addU8 n 1 = .ok (n + 1) := BuildMode.addU8_eq_ok_iff.mpr (by omega)
  refine ⟨{ sys₁ with interruptCount := some (counts.set t.cpuId (n + 1)) }, ?_, haccesses,
    ⟨n, hn, ?_⟩, hirqCount⟩
  . rw [handleKernTrap_eq_ok_iff h.globalIntc]
    refine ⟨hsafe.noOverflow.mono (by have := hpossible.1; omega), hsafe.noOverflow, hsafe.noWrap,
      startTime, ?_, ?_⟩
    . exact intcHandleIrq_eq_ok_iff.mpr
        ⟨sys₁, counts, n, n + 1, hplic, hcounts.trans hsome, hget, hcount, rfl⟩
    . intro hinfo
      rcases startTime_of_plicHandleIrq h hplic with ⟨hreg, rfl⟩ | ⟨hreg, rfl⟩
      . rcases hsafe.logged hinfo with hlogged | hzero
        . exact hlogged.2
        . rw [hzero]
          exact Nat.zero_le _
      . rcases hsafe.logged hinfo with hlogged | hzero
        . exact absurd hlogged.1 hreg
        . rw [hzero]
          exact Nat.le_refl _
  . simp [countOf, List.getElem?_set_self hcpu]

theorem inv_enable (h : Inv sys) {cpuId irqNum : Nat} (henable : sys.enable cpuId irqNum = .ok sys')
    : Inv sys' := by
  unfold enable Plic.enable at henable
  simp only [Except.bind_eq_ok_iff, Except.pure_eq_ok_iff, IrqM.unwrap_eq_ok_iff] at henable
  obtain ⟨plic, hplic, plic', ⟨contextId, _, _, hassert, rfl⟩, rfl⟩ := henable
  obtain ⟨plic₁, hplic₁, hfilled⟩ := h.plic
  cases hplic.symm.trans hplic₁
  refine ⟨h.globalIntc, ⟨_, rfl, hfilled⟩, ?_, h.irqCount⟩
  intro hdebug irqNum' hmem
  rcases List.mem_cons.mp hmem with rfl | hmem
  . exact BuildMode.debugAssert_eq_ok_iff.mp hassert hdebug
  . exact h.sources hdebug irqNum' hmem

theorem inv_disable (h : Inv sys) {cpuId irqNum : Nat} (hdisable : sys.disable cpuId irqNum = .ok sys')
    : Inv sys' := by
  unfold disable Plic.disable at hdisable
  simp only [Except.bind_eq_ok_iff, Except.pure_eq_ok_iff, IrqM.unwrap_eq_ok_iff] at hdisable
  obtain ⟨plic, hplic, plic', ⟨contextId, _, _, _, rfl⟩, rfl⟩ := hdisable
  obtain ⟨plic₁, hplic₁, hfilled⟩ := h.plic
  cases hplic.symm.trans hplic₁
  exact ⟨h.globalIntc, ⟨_, rfl, hfilled⟩, h.sources, h.irqCount⟩

theorem inv_registerDevice (h : Inv sys) {irqNum : Nat} {dev : IrqDevice}
    (hregister : sys.registerDevice irqNum dev = .ok sys')
    : Inv sys' := by
  unfold registerDevice Plic.registerDevice Plic.setPriority at hregister
  simp only [Except.bind_eq_ok_iff, Except.pure_eq_ok_iff, IrqM.unwrap_eq_ok_iff] at hregister
  obtain ⟨plic, hplic, plic', ⟨_, _, rfl⟩, rfl⟩ := hregister
  obtain ⟨plic₁, hplic₁, hfilled⟩ := h.plic
  cases hplic.symm.trans hplic₁
  have hfilled' := IrqManager.filled_registerDevice hfilled irqNum dev
  exact ⟨h.globalIntc, ⟨_, rfl, hfilled'⟩, h.sources, h.irqCount⟩

theorem le_update_irqCount (h : Inv sys) {irqNum irqNum' : Nat} {count n : Int} (hcount : -2 ^ 31 ≤ count)
    (hn : Function.update sys.irqCount irqNum (some count) irqNum' = some n)
    : -2 ^ 31 ≤ n := by
  rw [Function.update_apply] at hn
  split at hn
  . cases hn
    exact hcount
  . exact h.irqCount hn

theorem inv_resetCount (h : Inv sys) {irqNum : Nat} (hreset : sys.resetCount irqNum = .ok sys')
    : Inv sys' := by
  unfold resetCount at hreset
  simp only [Except.bind_eq_ok_iff, Except.pure_eq_ok_iff] at hreset
  obtain ⟨_, _, rfl⟩ := hreset
  exact ⟨h.globalIntc, h.plic, h.sources, le_update_irqCount h (by decide)⟩

theorem inv_handleKernTrap (h : Inv sys) (htrap : sys.handleKernTrap t = .ok sys') : Inv sys' := by
  obtain ⟨_, _, _, startTime, hintc, _⟩ := (handleKernTrap_eq_ok_iff h.globalIntc).mp htrap
  obtain ⟨sys₁, counts, n, count, hplic, _, _, _, rfl⟩ := intcHandleIrq_eq_ok_iff.mp hintc
  obtain ⟨plic, hsome, hfilled⟩ := h.plic
  obtain ⟨plic', contextId, hsome', _, hshape⟩ := plicHandleIrq_eq_ok_iff.mp hplic
  cases hsome.symm.trans hsome'
  rcases hshape with ⟨_, _, rfl⟩ | ⟨_, _, _, _, hcount, _, _, rfl⟩
  . exact ⟨h.globalIntc, ⟨_, rfl, hfilled⟩, h.sources, h.irqCount⟩
  . exact ⟨h.globalIntc, ⟨_, rfl, hfilled⟩, h.sources, le_update_irqCount h (BuildMode.le_of_addI32 hcount)⟩

theorem inv_step (h : Inv sys) {a : IrqAction} (hstep : sys.step a = .next sys') : Inv sys' := by
  have hcall := Outcome.ofExcept_eq_next hstep
  cases a with
  | trap t =>
    simp only [call] at hcall
    split at hcall
    . exact inv_handleKernTrap h hcall
    . cases hcall
  | enable cpuId irqNum => exact inv_enable h hcall
  | disable cpuId irqNum => exact inv_disable h hcall
  | registerDevice irqNum dev => exact inv_registerDevice h hcall
  | resetCount irqNum => exact inv_resetCount h hcall

theorem inv_boot {mode : BuildMode} {root : RootCompatible} {freq : Nat} {infoEnabled : Bool}
    {regs : Nat → BitVec 32} {cpuId : Nat}
    (hboot : (probed mode root freq infoEnabled regs).initStrategy cpuId = .ok sys)
    : Inv sys := by
  unfold initStrategy at hboot
  obtain ⟨sys₁, henable, henable'⟩ := Except.bind_eq_ok_iff.mp hboot
  refine inv_enable (inv_enable ⟨rfl, ⟨_, rfl, ?_⟩, ?_, ?_⟩ henable) henable'
  . exact fun irqNum h => (by cases h)
  . exact fun _ irqNum hmem => (by cases hmem)
  . intro irqNum n hn
    simp only [Function.update_apply, probed] at hn
    split at hn
    . cases hn
      decide
    . split at hn
      . cases hn
        decide
      . cases hn

/--
In every state after the boot, whatever was enabled, disabled and registered and whatever traps there were:
the handling of the next trap comes to its end exactly if the trap is safe.
-/
theorem completes_iff {mode : BuildMode} {root : RootCompatible} {freq : Nat} {infoEnabled : Bool}
    {regs : Nat → BitVec 32} {cpuId : Nat} {booted : IrqSystem} {as : List IrqAction}
    (hboot : (probed mode root freq infoEnabled regs).initStrategy cpuId = .ok booted)
    (hrun : Run step (fun _ _ => True) booted as sys) (hpossible : sys.Possible t)
    : (∃ sys', sys.Completes t sys') ↔ sys.TrapSafe t := by
  have h : Inv sys := hrun.invariant Inv (inv_boot hboot) fun _ _ _ h _ hstep => inv_step h hstep
  constructor
  . rintro ⟨sys', hcompletes⟩
    exact trapSafe_of_completes h hcompletes
  . exact completes_of_trapSafe h hpossible

-- A character on the serial port, and a claim that finds nothing, one second after the start.
def uartTrap : ExternalTrap :=
  { cpuId := 0, claim := 10, startTicks := 10000000, handlerTicks := 10000050, finishTicks := 10000100 }

def spuriousTrap : ExternalTrap := { uartTrap with claim := 0 }

def returnsFrom (sys : IrqSystem) (t : ExternalTrap) : Bool :=
  match sys.handleKernTrap t with
  | .ok _ => true
  | .error _ => false

theorem exists_registered {p : IrqSystem → Bool}
    (h : (match (probed .release .riscvVirtio 10000000 true fun _ => 0).initStrategy 0 with
      | .ok booted => (exec step booted [.registerDevice 10 .ns16550a]).holds p
      | .error _ => false) = true)
    : ∃ booted sys,
        (probed .release .riscvVirtio 10000000 true fun _ => 0).initStrategy 0 = .ok booted ∧
          Run step (fun _ _ => True) booted [.registerDevice 10 .ns16550a] sys ∧ p sys = true := by
  split at h
  . next booted hboot =>
    obtain ⟨sys, hrun, hsys⟩ := exists_run_of_exec _ _ _ _ h
    exact ⟨booted, sys, hboot, hrun, hsys⟩
  . simp at h

theorem completes_iff_uartTrap
    : ∃ booted sys, (probed .release .riscvVirtio 10000000 true fun _ => 0).initStrategy 0 = .ok booted ∧
        Run step (fun _ _ => True) booted [.registerDevice 10 .ns16550a] sys ∧ sys.Possible uartTrap ∧
        sys.returnsFrom uartTrap = true ∧
        ((∃ sys', sys.Completes uartTrap sys') ↔ sys.TrapSafe uartTrap) := by
  obtain ⟨booted, sys, hboot, hrun, hsys⟩ := exists_registered
    (p := fun sys => sys.Possible uartTrap && sys.returnsFrom uartTrap) (by decide +kernel)
  simp only [Bool.and_eq_true, decide_eq_true_eq] at hsys
  exact ⟨booted, sys, hboot, hrun, hsys.1, hsys.2, completes_iff hboot hrun hsys.1⟩

-- The zero that stands for a claim without a source is subtracted from.
theorem completes_spuriousTrap_false
    : ¬ ∀ (mode : BuildMode) (root : RootCompatible) (freq : Nat) (infoEnabled : Bool)
        (regs : Nat → BitVec 32) (cpuId : Nat) (booted : IrqSystem) (as : List IrqAction)
        (sys : IrqSystem) (t : ExternalTrap),
        (probed mode root freq infoEnabled regs).initStrategy cpuId = .ok booted →
          Run step (fun _ _ => True) booted as sys → sys.Possible t → ∃ sys', sys.Completes t sys' := by
  intro h
  obtain ⟨booted, sys, hboot, hrun, hsys⟩ := exists_registered
    (p := fun sys => sys.Possible spuriousTrap && !sys.returnsFrom spuriousTrap) (by decide +kernel)
  simp only [Bool.and_eq_true, decide_eq_true_eq, Bool.not_eq_true'] at hsys
  obtain ⟨sys', hcompletes⟩ := h _ _ _ _ _ _ _ _ _ _ hboot hrun hsys.1
  simp [returnsFrom, hcompletes.returns] at hsys

end IrqSystem

end Jrinx
