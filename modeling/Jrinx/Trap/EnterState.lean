import Jrinx.Trap.Interrupted

/-!
This module contains what holds between the instructions of `run_user`, up to where `sscratch` is set.
-/

namespace Jrinx

namespace Hart

variable {image : KernelImage} {h h' s s' : Hart} {j : Nat}

-- What is in memory before instruction `j`. The registers are pushed from the last slot on.
structure EnterMem (h : Hart) (j : Nat) (mem : Memory) : Prop where
  context : ∀ k, 0 < k → k < 69 → mem.load (Memory.slot (h.reg .a0) k) = h.mem.load (Memory.slot (h.reg .a0) k)
  saved : ∀ r k, (r, k) ∈ kernelRegs → 16 ≤ j + k → mem.load (Memory.slot h.userFrame k) = h.reg r
  parked : 19 ≤ j → kernelSp mem (h.reg .a0) = h.userFrame

def enterSp (h : Hart) (j : Nat) : DWord :=
  if j = 0 then h.reg .sp else if j < 18 then h.userFrame else h.reg .a0

theorem enterSp_zero (h : Hart) : enterSp h 0 = h.reg .sp := if_pos rfl

theorem enterSp_frame (h : Hart) (hpos : 0 < j) (hj : j < 18) : enterSp h j = h.userFrame := by
  rw [enterSp, if_neg (Nat.ne_of_gt hpos), if_pos hj]

theorem enterSp_context (h : Hart) (hj : 18 ≤ j) : enterSp h j = h.reg .a0 := by
  rw [enterSp, if_neg (by omega), if_neg (by omega)]

structure EnterState (image : KernelImage) (h : Hart) (j : Nat) (s : Hart) : Prop where
  pc : s.pc = image.place j
  mode : s.mode = .supervisor
  floatOn : ¬ (s.csrs .sstatus).floatOff
  sie : s.csrs .sie = h.csrs .sie
  interruptEnable : (s.csrs .sstatus).getLsbD DWord.sie = (h.csrs .sstatus).getLsbD DWord.sie
  kernel : ∀ r k, (r, k) ∈ kernelRegs → s.reg r = h.reg r
  a0 : s.reg .a0 = h.reg .a0
  sp : s.reg .sp = enterSp h j
  t0 : 17 ≤ j → s.reg .t0 = h.userFrame
  kernelTrap : j < 20 → s.csrs .sscratch = 0
  userTrap : 20 ≤ j → s.csrs .sscratch = h.reg .a0
  mem : EnterMem h j s.mem

theorem CallsRunUser.enterState (hcalls : CallsRunUser image h) : EnterState image h 0 h := by
  constructor
  case pc => exact hcalls.pc
  case mode => exact hcalls.mode
  case floatOn => exact hcalls.floatOn
  case kernelTrap => exact fun _ => hcalls.sscratch
  case userTrap => exact fun hj => absurd hj (by decide)
  case t0 => exact fun hj => absurd hj (by decide)
  case mem =>
    constructor
    case context => exact fun k _ _ => rfl
    case saved =>
      intro r k hmem hk
      have hlt := kernelRegs_lt hmem
      exact absurd hk (by omega)
    case parked => exact fun hj => absurd hj (by decide)
  case sie => rfl
  case interruptEnable => rfl
  case kernel => exact fun _ _ _ => rfl
  case a0 => rfl
  case sp => rw [enterSp_zero]

theorem EnterState.takesInterrupt_iff (hstate : EnterState image h j s) (hmode : h.mode = .supervisor)
    (int : SupervisorInt)
    : s.TakesInterrupt int ↔ h.TakesInterrupt int := by
  simp only [TakesInterrupt, hstate.mode, hmode, hstate.interruptEnable, hstate.sie]

theorem CallsRunUser.size_le (hcalls : CallsRunUser image h)
    : ctxSize + (15 * xlenb + (ctxSize + image.depth)) ≤ 2 ^ 64 := by
  have hpos : 0 < ctxSize := by decide
  have hle : ctxSize ≤ 2 ^ 64 := by
    unfold ctxSize xlenb
    decide
  exact Memory.add_le_of_not_below hpos hle hcalls.stack

theorem CallsRunUser.size_context (hcalls : CallsRunUser image h)
    : ctxSize + (ctxSize + image.depth) ≤ 2 ^ 64 :=
  Nat.le_trans (Nat.add_le_add_left (Nat.le_add_left _ _) _) hcalls.size_le

theorem CallsRunUser.size_userFrame (hcalls : CallsRunUser image h)
    : 15 * xlenb + (ctxSize + image.depth) ≤ 2 ^ 64 :=
  Nat.le_trans (Nat.le_add_left _ _) hcalls.size_le

theorem CallsRunUser.contextApart (hcalls : CallsRunUser image h) : h.ContextApart := by
  intro b hb hb'
  exact hcalls.stack b hb ((Memory.span_sub_iff.mp hb').mono (Nat.le_add_right _ _))

theorem below_userFrame {n : Nat} {b : DWord} (hb : Memory.Below h.userFrame n b)
    : Memory.Below (h.reg .sp) (15 * xlenb + n) b := hb.add

theorem EnterMem.congr {mem mem' : Memory} (hmem : EnterMem h j mem)
    (hctx : ∀ b, Memory.Span (h.reg .a0) ctxSize b → mem' b = mem b)
    (hframe : 0 < j → ∀ b, Memory.Span h.userFrame (15 * xlenb) b → mem' b = mem b)
    : EnterMem h j mem' := by
  constructor
  case context =>
    intro k hpos hk
    rw [Memory.load_slot_congr hk (by decide) hctx]
    exact hmem.context k hpos hk
  case saved =>
    intro r k hr hk
    have hlt := kernelRegs_lt hr
    rw [Memory.load_slot_congr hlt (by decide) (hframe (by omega))]
    exact hmem.saved r k hr hk
  case parked =>
    intro hj
    rw [kernelSp, Memory.load_slot_congr (by decide : 0 < 69) (by decide) hctx]
    exact hmem.parked hj

theorem context_not_below (hcalls : CallsRunUser image h) {b : DWord}
    (hb : Memory.Span (h.reg .a0) ctxSize b)
    : ¬ Memory.Below (enterSp h j) (ctxSize + image.depth) b := by
  unfold enterSp
  split
  . intro hbelow
    exact hcalls.stack b hb (hbelow.mono (Nat.le_add_left _ _))
  . split
    . intro hbelow
      exact hcalls.stack b hb (below_userFrame hbelow)
    . exact hb.not_below hcalls.size_context

theorem userFrame_not_below (hcalls : CallsRunUser image h) (hsafe : SafeBoundary image h j) (hpos : 0 < j)
    {b : DWord} (hb : Memory.Span h.userFrame (15 * xlenb) b)
    : ¬ Memory.Below (enterSp h j) (ctxSize + image.depth) b := by
  unfold enterSp
  rw [if_neg (Nat.ne_of_gt hpos)]
  split
  . exact hb.not_below hcalls.size_userFrame
  . next hj =>
    rcases hsafe with hlt | ⟨_, hroom⟩
    . exact absurd hlt hj
    . exact hroom b hb

theorem EnterState.interrupt (hcalls : CallsRunUser image h) (hstate : EnterState image h j s)
    (hsafe : SafeBoundary image h j) (cause tval : DWord)
    : ∃ h₁, (s.trap cause tval).trapEntry image.handler image.link = some h₁ ∧ h₁.pc = image.handler ∧
        h₁.reg .ra = image.link ∧
        ∀ h₂, InterruptReturns image h h₁ h₂ → ∃ s', h₂.trapExit = some s' ∧ EnterState image h j s' := by
  have hj := hsafe.lt
  have hscratch : (s.trap cause tval).csrs .sscratch = 0 := by
    have hs : (s.trap cause tval).csrs .sscratch = s.csrs .sscratch := rfl
    rw [hs, hstate.kernelTrap hj]
  obtain ⟨h₁, hentry, hcallsHandler⟩ :=
    trapEntry_trap image.handler image.link hstate.mode hstate.floatOn cause tval
  have hbase : (s.trap cause tval).trapBase = enterSp h j + -BitVec.ofNat 64 ctxSize := by
    rw [trapBase_kernel hscratch, ← hstate.sp]
    rfl
  refine ⟨h₁, hentry, hcallsHandler.pc, hcallsHandler.ra, ?_⟩
  intro h₂ hreturns
  obtain ⟨s', hexit, hgoes, hfs, hmem⟩ :=
    hcallsHandler.trapExit hstate.mode hstate.floatOn hreturns.toHandlerReturns
  -- Neither the registers that the entry saves nor the handler's stack are there.
  have hkept {b : DWord} (hb : Memory.Span (h.reg .a0) ctxSize b ∨ Memory.Span h.userFrame (15 * xlenb) b)
      (hbelow : ¬ Memory.Below (enterSp h j) (ctxSize + image.depth) b) : s'.mem b = s.mem b := by
    have hstack : ¬ Memory.Below (h₁.reg .sp) image.depth b := by
      rw [hcallsHandler.sp, hbase]
      exact fun hb' => hbelow hb'.add
    have hspan : ¬ Memory.Span (s.trap cause tval).trapBase ctxSize b := by
      rw [hbase]
      exact fun hb' => hbelow ((Memory.span_sub_iff.mp hb').mono (Nat.le_add_right _ _))
    rw [hmem, hreturns.mem b hb hstack, hcallsHandler.mem]
    exact Memory.storeSlots_of_not_span (frame_lt _) (by decide) hspan
  refine ⟨s', hexit, ?_⟩
  constructor
  case pc => exact hgoes.pc.trans hstate.pc
  case mode => exact hgoes.mode.trans hstate.mode
  case floatOn => exact hfs
  case sie => exact hgoes.sie.trans hstate.sie
  case interruptEnable => exact hgoes.interruptEnable.trans hstate.interruptEnable
  case kernel => exact fun r k hr => (hgoes.regs r).trans (hstate.kernel r k hr)
  case a0 => exact (hgoes.regs .a0).trans hstate.a0
  case sp => exact (hgoes.regs .sp).trans hstate.sp
  case t0 => exact fun h17 => (hgoes.regs .t0).trans (hstate.t0 h17)
  case kernelTrap => exact fun _ => hgoes.sscratch
  case userTrap => exact fun h20 => absurd hj (by omega)
  case mem =>
    apply hstate.mem.congr
    . exact fun b hb => hkept (.inl hb) (context_not_below hcalls hb)
    . exact fun hpos b hb => hkept (.inr hb) (userFrame_not_below hcalls hsafe hpos hb)

theorem EnterState.next (hstate : EnterState image h j s) (hmode : s'.mode = s.mode)
    (hcsrs : ∀ csr, csr ≠ .sscratch → s'.csrs csr = s.csrs csr)
    (hregs : ∀ r, r ≠ .sp → r ≠ .t0 → s'.reg r = s.reg r) (hsp : s'.reg .sp = enterSp h (j + 1))
    (ht0 : 17 ≤ j + 1 → s'.reg .t0 = h.userFrame)
    (hkernel : j + 1 < 20 → s'.csrs .sscratch = 0) (huser : 20 ≤ j + 1 → s'.csrs .sscratch = h.reg .a0)
    (hmem : EnterMem h (j + 1) s'.mem)
    : EnterState image h (j + 1) { s' with pc := image.place (j + 1) } := by
  have hsstatus : s'.csrs .sstatus = s.csrs .sstatus := hcsrs .sstatus (by decide)
  have hne : ∀ p ∈ kernelRegs, p.1 ≠ .sp ∧ p.1 ≠ .t0 := by decide
  constructor
  case pc => rfl
  case mode => exact hmode.trans hstate.mode
  case floatOn =>
    rw [hsstatus]
    exact hstate.floatOn
  case sie => exact (hcsrs .sie (by decide)).trans hstate.sie
  case interruptEnable =>
    rw [hsstatus]
    exact hstate.interruptEnable
  case kernel =>
    intro r k hr
    obtain ⟨hrsp, hrt0⟩ := hne (r, k) hr
    exact (hregs r hrsp hrt0).trans (hstate.kernel r k hr)
  case a0 => exact (hregs .a0 (by decide) (by decide)).trans hstate.a0
  case sp => exact hsp
  case t0 => exact ht0
  case kernelTrap => exact hkernel
  case userTrap => exact huser
  case mem => exact hmem

theorem EnterMem.next {mem : Memory} (hmem : EnterMem h j mem) (hj : j = 0 ∨ 16 ≤ j) (h18 : j ≠ 18)
    : EnterMem h (j + 1) mem := by
  constructor
  case context => exact hmem.context
  case saved =>
    intro r k hr hk
    have hlt := kernelRegs_lt hr
    exact hmem.saved r k hr (by omega)
  case parked => exact fun h19 => hmem.parked (by omega)

theorem EnterMem.push {mem : Memory} {r : Reg} (hmem : EnterMem h j mem) (hapart : h.ContextApart)
    (hj : j < 16) (hr : (r, 15 - j) ∈ kernelRegs)
    : EnterMem h (j + 1) (mem.store (Memory.slot h.userFrame (15 - j)) (h.reg r)) := by
  have hlt := kernelRegs_lt hr
  constructor
  case context =>
    intro k hpos hk
    rw [← hmem.context k hpos hk]
    apply Memory.load_store_of_disjoint
    intro b hb hb'
    exact hapart b (Memory.span_of_span_slot hk (by decide) hb) (Memory.span_of_span_slot hlt (by decide) hb')
  case saved =>
    intro r' k hr' hk
    have hlt' := kernelRegs_lt hr'
    by_cases hkj : k = 15 - j
    . have hinj : ∀ p ∈ kernelRegs, ∀ q ∈ kernelRegs, p.2 = q.2 → p.1 = q.1 := by decide
      have hrr' : r' = r := hinj _ hr' _ hr hkj
      rw [hkj, hrr']
      exact Memory.load_store_self
    . rw [← hmem.saved r' k hr' (by omega)]
      exact Memory.load_slot_store_slot (by omega) (by omega) (Ne.symm hkj)
  case parked => exact fun h19 => absurd h19 (by omega)

theorem EnterMem.park {mem : Memory} (hmem : EnterMem h 18 mem) (hapart : h.ContextApart)
    : EnterMem h 19 (mem.store (Memory.slot (h.reg .a0) 0) h.userFrame) := by
  constructor
  case context =>
    intro k hpos hk
    rw [← hmem.context k hpos hk]
    exact Memory.load_slot_store_slot (by decide) (by omega) (by omega)
  case saved =>
    intro r k hr hk
    have hlt := kernelRegs_lt hr
    rw [← hmem.saved r k hr (by omega)]
    apply Memory.load_store_of_disjoint
    intro b hb hb'
    exact hapart b (Memory.span_of_span_slot (n := 69) (by decide) (by decide) hb')
      (Memory.span_of_span_slot hlt (by decide) hb)
  case parked => exact fun _ => Memory.load_store_self

theorem enterCode_push (hpos : 0 < j) (hj : j < 16)
    : ∃ r, (r, 15 - j) ∈ kernelRegs ∧ enterCode[j]? = some (pushReg r ((15 - j) * xlenb)) := by
  interval_cases j <;> refine ⟨_, ?_, rfl⟩ <;> decide

theorem reg_setReg_of_ne {r r' : Reg} (hne : r ≠ r') (s : Hart) (v : DWord)
    : (s.setReg r' v).reg r = s.reg r := by
  by_cases hzero : r' = .zero
  . simp only [setReg, hzero, if_true]
  . simp only [setReg, hzero, if_false, reg, Function.update_of_ne hne]

theorem EnterState.push {r : Reg} (hapart : h.ContextApart) (hstate : EnterState image h j s) (hpos : 0 < j)
    (hj : j < 16) (hr : (r, 15 - j) ∈ kernelRegs)
    : ∃ s', s.execInstr (pushReg r ((15 - j) * xlenb)) = some s' ∧
        EnterState image h (j + 1) { s' with pc := image.place (j + 1) } := by
  have hsp : s.reg .sp = h.userFrame := by
    rw [hstate.sp, enterSp_frame h hpos (by omega)]
  refine ⟨_, rfl, ?_⟩
  refine hstate.next rfl (fun _ _ => rfl) (fun _ _ _ => rfl) ?_ ?_ ?_ ?_ ?_
  . rw [enterSp_frame h (by omega) (by omega)]
    exact hsp
  . exact fun h17 => absurd h17 (by omega)
  . exact fun _ => hstate.kernelTrap (by omega)
  . exact fun h20 => absurd h20 (by omega)
  . rw [addr_slot, hsp, hstate.kernel r _ hr]
    exact hstate.mem.push hapart hj hr

-- `addi sp, sp, -15 * XLENB`
theorem EnterState.room (hstate : EnterState image h 0 s)
    : EnterState image h 1
        { s.setReg .sp (s.reg .sp + -BitVec.ofNat 64 (15 * xlenb)) with pc := image.place 1 } := by
  refine hstate.next rfl (fun _ _ => rfl) ?_ ?_ ?_ ?_ ?_ ?_
  . exact fun r hsp _ => reg_setReg_of_ne hsp s _
  . rw [enterSp_frame h (by decide) (by decide), userFrame, ← enterSp_zero h, ← hstate.sp]
    rfl
  . exact fun h17 => absurd h17 (by decide)
  . exact fun _ => hstate.kernelTrap (by decide)
  . exact fun h20 => absurd h20 (by decide)
  . exact hstate.mem.next (.inl rfl) (by decide)

-- `mv t0, sp`
theorem EnterState.moveSp (hstate : EnterState image h 16 s)
    : EnterState image h 17 { s.setReg .t0 (s.reg .sp) with pc := image.place 17 } := by
  have hsp : s.reg .sp = h.userFrame := by
    rw [hstate.sp, enterSp_frame h (by decide) (by decide)]
  refine hstate.next rfl (fun _ _ => rfl) ?_ ?_ ?_ ?_ ?_ ?_
  . exact fun r _ ht0 => reg_setReg_of_ne ht0 s _
  . rw [enterSp_frame h (by decide) (by decide), reg_setReg_of_ne (by decide), hsp]
  . exact fun _ => hsp
  . exact fun _ => hstate.kernelTrap (by decide)
  . exact fun h20 => absurd h20 (by decide)
  . exact hstate.mem.next (.inr (by decide)) (by decide)

-- `mv sp, a0`
theorem EnterState.moveContext (hstate : EnterState image h 17 s)
    : EnterState image h 18 { s.setReg .sp (s.reg .a0) with pc := image.place 18 } := by
  refine hstate.next rfl (fun _ _ => rfl) ?_ ?_ ?_ ?_ ?_ ?_
  . exact fun r hsp _ => reg_setReg_of_ne hsp s _
  . rw [enterSp_context h (by decide)]
    exact hstate.a0
  . intro _
    rw [reg_setReg_of_ne (by decide)]
    exact hstate.t0 (by decide)
  . exact fun _ => hstate.kernelTrap (by decide)
  . exact fun h20 => absurd h20 (by decide)
  . exact hstate.mem.next (.inr (by decide)) (by decide)

-- `PUSH_REG t0, 0`
theorem EnterState.park (hapart : h.ContextApart) (hstate : EnterState image h 18 s)
    : EnterState image h 19
        { s with mem := s.mem.store (s.addr .sp 0) (s.reg .t0), pc := image.place 19 } := by
  have hsp : s.reg .sp = h.reg .a0 := by
    rw [hstate.sp, enterSp_context h (by decide)]
  have haddr : s.addr .sp 0 = Memory.slot (h.reg .a0) 0 := by
    rw [← hsp]
    exact s.addr_slot .sp 0
  rw [haddr, hstate.t0 (by decide)]
  have hmode : { s with mem := s.mem.store (Memory.slot (h.reg .a0) 0) h.userFrame }.mode = s.mode := rfl
  refine hstate.next hmode (fun _ _ => rfl) (fun _ _ _ => rfl) ?_ ?_ ?_ ?_ ?_
  . rw [enterSp_context h (by decide)]
    exact hsp
  . exact fun _ => hstate.t0 (by decide)
  . exact fun _ => hstate.kernelTrap (by decide)
  . exact fun h20 => absurd h20 (by decide)
  . exact hstate.mem.park hapart

-- `csrw sscratch, sp`
theorem EnterState.setSscratch (hstate : EnterState image h 19 s)
    : EnterState image h 20 { s.setCsr .sscratch (s.reg .sp) with pc := image.place 20 } := by
  have hsp : s.reg .sp = h.reg .a0 := by
    rw [hstate.sp, enterSp_context h (by decide)]
  refine hstate.next rfl ?_ (fun _ _ _ => rfl) ?_ ?_ ?_ ?_ ?_
  . exact fun csr hcsr => Function.update_of_ne hcsr _ _
  . rw [enterSp_context h (by decide)]
    exact hsp
  . exact fun _ => hstate.t0 (by decide)
  . exact fun h20 => absurd h20 (by decide)
  . exact fun _ => hsp
  . exact hstate.mem.next (.inr (by decide)) (by decide)

theorem EnterState.instr (hapart : h.ContextApart) (hstate : EnterState image h j s) (hj : j < 20)
    : ∃ i s', enterCode[j]? = some i ∧ s.execInstr i = some s' ∧
        EnterState image h (j + 1) { s' with pc := image.place (j + 1) } := by
  by_cases hpush : 0 < j ∧ j < 16
  . obtain ⟨r, hr, hinstr⟩ := enterCode_push hpush.1 hpush.2
    obtain ⟨s', hexec, hstate'⟩ := hstate.push hapart hpush.1 hpush.2 hr
    exact ⟨_, s', hinstr, hexec, hstate'⟩
  . have hcases : j = 0 ∨ j = 16 ∨ j = 17 ∨ j = 18 ∨ j = 19 := by omega
    rcases hcases with rfl | rfl | rfl | rfl | rfl
    . exact ⟨_, _, rfl, rfl, hstate.room⟩
    . exact ⟨_, _, rfl, rfl, hstate.moveSp⟩
    . exact ⟨_, _, rfl, rfl, hstate.moveContext⟩
    . exact ⟨_, _, rfl, rfl, hstate.park hapart⟩
    . exact ⟨_, _, rfl, rfl, hstate.setSscratch⟩

end Hart

end Jrinx
