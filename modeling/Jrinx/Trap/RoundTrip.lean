import Jrinx.Trap.SaveRestore

/-!
This module contains the way of a trap through the entry code and back: from the kernel to the handler and
back to where the trap was taken, and from `run_user` to a user program and back to the caller.
-/

namespace Jrinx

namespace Hart

variable {h h' : Hart} {handler link : DWord}

theorem getLsbD_trap_spp (h : Hart) (cause tval : DWord)
    : ((h.trap cause tval).csrs .sstatus).getLsbD DWord.spp = decide (h.mode = .supervisor) := by
  simp only [trap, setCsr, Function.update_self, getLsbD_setBit _ (by decide : DWord.spp < 64), if_true]

theorem floatOff_setBit (w : DWord) {i : Nat} (hi : i < 13) (b : Bool)
    : (w.setBit i b).floatOff ↔ w.floatOff := by
  rw [DWord.floatOff, DWord.floatOff, getLsbD_setBit w (by omega), getLsbD_setBit w (by omega),
    if_neg (by omega), if_neg (by omega)]

theorem floatOff_trap (h : Hart) (cause tval : DWord)
    : ((h.trap cause tval).csrs .sstatus).floatOff ↔ (h.csrs .sstatus).floatOff := by
  simp only [trap, setCsr, Function.update_self]
  rw [floatOff_setBit _ (by decide), floatOff_setBit _ (by decide), floatOff_setBit _ (by decide)]

theorem and_spp_eq_zero_iff (sstatus : DWord)
    : sstatus &&& 1#64 <<< 8 = 0 ↔ sstatus.getLsbD DWord.spp = false := by
  constructor
  . intro hzero
    have hbit := congrArg (fun w => w.getLsbD 8) hzero
    simpa [DWord.spp] using hbit
  . intro hspp
    apply BitVec.eq_of_getLsbD_eq
    intro i hi
    by_cases h8 : i = 8
    . subst h8
      simpa [DWord.spp] using hspp
    . simp only [BitVec.getLsbD_and, BitVec.getLsbD_shiftLeft, BitVec.getLsbD_one]
      grind

-- The stack pointer and `sscratch` are swapped, and below the stack pointer there is room for a context.
def swapped (h : Hart) (sp : DWord) : Hart :=
  {
    h with
    regs := Function.update h.regs .sp sp
    csrs := Function.update h.csrs .sscratch (h.reg .sp)
  }

theorem reg_sp_swapped (h : Hart) (sp : DWord) : (h.swapped sp).reg .sp = sp := rfl

theorem of_swapped (h : Hart) (mem : Memory) (base sp : DWord)
    : (Context.load (mem.storeSlots base (h.swapped sp).frame) base).Of h := by
  apply of_frame
  . intro r hr
    simp only [reg, swapped, Function.update_of_ne hr]
  . rfl
  . rfl
  . intro csr hcsr
    simp only [swapped, Function.update_of_ne hcsr]

-- What is left when the registers are saved at `sp`.
def saved (h : Hart) (sp : DWord) : Hart :=
  {
    h with
    regs := Function.update (h.swapped sp).saveCsrsRegs .t1 (h.csrs .sstatus &&& 1#64 <<< 8)
    csrs := Function.update (h.swapped sp).csrs .sscratch 0
    mem := h.mem.storeSlots sp (h.swapped sp).frame
  }

theorem exec_swapped (hfs : ¬ (h.csrs .sstatus).floatOff) (sp : DWord)
    : (h.swapped sp).exec trapFromUserStCode = some (h.saved sp) :=
  exec_trapFromUserSt (h.swapped sp) hfs

-- Where the registers are saved: in the context that `sscratch` points to, or else on the stack.
def trapBase (h : Hart) : DWord :=
  if h.csrs .sscratch = 0 then h.reg .sp + -BitVec.ofNat 64 ctxSize else h.csrs .sscratch

theorem trapEntry_swapped (h : Hart) (handler link : DWord)
    : h.trapEntry handler link = (h.swapped h.trapBase).trapFromUserSt handler link := by
  have hentry : h.exec [.csrrw .sp .sscratch .sp] = some (h.swapped (h.csrs .sscratch)) := rfl
  have hroom : (h.swapped (h.csrs .sscratch)).exec
      [.csrr .sp .sscratch, .addi .sp .sp (-BitVec.ofNat 64 ctxSize)] =
        some (h.swapped (h.reg .sp + -BitVec.ofNat 64 ctxSize)) := by
    simp only [exec, execInstr, Option.bind_some, setReg, reg, swapped, reduceCtorEq, if_false,
      Function.update_self, Function.update_idem]
  rw [trapEntry, hentry, Option.bind_some, reg_sp_swapped, trapBase]
  by_cases hscratch : h.csrs .sscratch = 0
  . rw [if_neg (not_not.mpr hscratch), if_pos hscratch, trapFromKernSt, hroom, Option.bind_some]
  . rw [if_pos hscratch, if_neg hscratch]

theorem trapEntry_eq (handler link : DWord) (hfs : ¬ (h.csrs .sstatus).floatOff)
    : h.trapEntry handler link =
        if (h.csrs .sstatus).getLsbD DWord.spp = true then
          some (((h.saved h.trapBase).setReg .a0 h.trapBase).call handler link)
        else
          (h.saved h.trapBase).trapFromUserEd := by
  have ht1 : (h.saved h.trapBase).reg .t1 = 0 ↔ (h.csrs .sstatus).getLsbD DWord.spp = false :=
    and_spp_eq_zero_iff (h.csrs .sstatus)
  rw [trapEntry_swapped, trapFromUserSt, exec_swapped hfs, Option.bind_some]
  by_cases hspp : (h.csrs .sstatus).getLsbD DWord.spp = true
  . have hbranch : ¬ (h.saved h.trapBase).reg .t1 = 0 := by
      rw [ht1, hspp]
      decide
    rw [if_neg hbranch, if_pos hspp]
    rfl
  . rw [if_pos (ht1.mpr (Bool.eq_false_iff.mpr hspp)), if_neg hspp]

theorem trapBase_kernel (hscratch : h.csrs .sscratch = 0)
    : h.trapBase = h.reg .sp + -BitVec.ofNat 64 ctxSize := if_pos hscratch

theorem trapBase_user (hscratch : h.csrs .sscratch ≠ 0) : h.trapBase = h.csrs .sscratch := if_neg hscratch

structure CallsHandler (handler link : DWord) (h h' : Hart) : Prop where
  pc : h'.pc = handler
  ra : h'.reg .ra = link
  sp : h'.reg .sp = h.trapBase
  a0 : h'.reg .a0 = h.trapBase
  mode : h'.mode = h.mode
  sscratch : h'.csrs .sscratch = 0
  csrs : ∀ csr, csr ≠ .sscratch → h'.csrs csr = h.csrs csr
  mem : h'.mem = h.mem.storeSlots h.trapBase (h.swapped h.trapBase).frame

theorem CallsHandler.of (hcalls : CallsHandler handler link h h') : (Context.load h'.mem h.trapBase).Of h := by
  rw [hcalls.mem]
  exact h.of_swapped h.mem _ _

theorem trapEntry_kernel (handler link : DWord) (hspp : (h.csrs .sstatus).getLsbD DWord.spp = true)
    (hfs : ¬ (h.csrs .sstatus).floatOff)
    : ∃ h', h.trapEntry handler link = some h' ∧ CallsHandler handler link h h' := by
  rw [trapEntry_eq handler link hfs, if_pos hspp]
  refine ⟨_, rfl, ?_⟩
  have hcsrs (csr : Csr) (hcsr : csr ≠ .sscratch) : (h.saved h.trapBase).csrs csr = h.csrs csr := by
    simp only [saved, swapped, Function.update_of_ne hcsr]
  exact ⟨rfl, rfl, rfl, rfl, rfl, rfl, hcsrs, rfl⟩

-- The kernel stack pointer is in the slot of the register `zero`.
def kernelSp (mem : Memory) (base : DWord) : DWord := mem.load (Memory.slot base 0)

theorem kernelRegs_ne : ∀ p ∈ kernelRegs, p.1 ≠ .sp ∧ p.1 ≠ .zero := by
  decide

theorem exec_trapFromUserEd (h : Hart)
    : h.exec trapFromUserEdCode =
        some
          {
            h with
            regs :=
              let sp := kernelSp h.mem (h.reg .sp)
              Function.update (h.mem.loadSlots sp kernelRegs (Function.update h.regs .sp sp)) .sp
                (sp + BitVec.ofNat 64 (15 * xlenb))
          } := by
  have hpop : h.exec [popReg .sp 0] =
      some { h with regs := Function.update h.regs .sp (kernelSp h.mem (h.reg .sp)) } := rfl
  have hregs (regs : Reg → DWord) := exec_popRegs { h with regs } kernelRegs kernelRegs_ne
  rw [trapFromUserEdCode, List.append_assoc, exec_append_of_eq hpop, exec_append_of_eq (hregs _)]
  rfl

structure LeavesUser (h h' : Hart) : Prop where
  regs : ∀ r k, (r, k) ∈ kernelRegs → h'.reg r = h'.mem.load (Memory.slot (kernelSp h'.mem h.trapBase) k)
  sp : h'.reg .sp = kernelSp h'.mem h.trapBase + BitVec.ofNat 64 (15 * xlenb)
  pc : h'.pc = h'.reg .ra
  mode : h'.mode = h.mode
  sscratch : h'.csrs .sscratch = 0
  csrs : ∀ csr, csr ≠ .sscratch → h'.csrs csr = h.csrs csr
  mem : h'.mem = h.mem.storeSlots h.trapBase (h.swapped h.trapBase).frame

theorem trapEntry_user (handler link : DWord) (hspp : (h.csrs .sstatus).getLsbD DWord.spp = false)
    (hfs : ¬ (h.csrs .sstatus).floatOff)
    : ∃ h', h.trapEntry handler link = some h' ∧ LeavesUser h h' := by
  rw [trapEntry_eq handler link hfs, if_neg (by rw [hspp]; decide), trapFromUserEd, exec_trapFromUserEd,
    Option.map_some]
  refine ⟨_, rfl, ?_⟩
  constructor
  case regs =>
    intro r k hmem
    obtain ⟨hsp, hzero⟩ := kernelRegs_ne (r, k) hmem
    simp only [ret, reg, hzero, if_false, Function.update_of_ne hsp]
    exact Memory.loadSlots_of_mem (by decide) hmem
  case csrs =>
    intro csr hcsr
    simp only [ret, saved, swapped, Function.update_of_ne hcsr]
  case sp => rfl
  case pc => rfl
  case mode => rfl
  case sscratch => rfl
  case mem => rfl

theorem exec_pushKernelRegs (h : Hart)
    : h.exec (kernelRegs.reverse.map fun p => pushReg p.1 (p.2 * xlenb)) =
        some
          {
            h with
            mem := h.mem.storeSlots (h.reg .sp) (kernelRegs.reverse.map fun p => (p.2, h.reg p.1))
          } :=
  h.exec_pushRegs kernelRegs.reverse

-- The frame of `run_user` on the kernel stack.
def userFrame (h : Hart) : DWord := h.reg .sp + -BitVec.ofNat 64 (15 * xlenb)

def kernelSaved (h : Hart) : List (Nat × DWord) := kernelRegs.reverse.map fun p => (p.2, h.reg p.1)

def entering (h : Hart) : Hart :=
  {
    h with
    regs :=
      let regs := Function.update (Function.update h.regs .sp h.userFrame) .t0 h.userFrame
      Function.update regs .sp (h.reg .a0)
    csrs := Function.update h.csrs .sscratch (h.reg .a0)
    mem := (h.mem.storeSlots h.userFrame h.kernelSaved).store (Memory.slot (h.reg .a0) 0) h.userFrame
  }

theorem exec_runUser (h : Hart) : h.exec runUserCode = some h.entering := by
  have haddi : h.exec [.addi .sp .sp (-BitVec.ofNat 64 (15 * xlenb))] =
      some { h with regs := Function.update h.regs .sp h.userFrame } := rfl
  rw [runUserCode, List.append_assoc, exec_append_of_eq haddi, exec_append_of_eq (exec_pushKernelRegs _)]
  rfl

-- The context is not on the part of the stack that `run_user` uses.
def ContextApart (h : Hart) : Prop :=
  ∀ b, Memory.Span (h.reg .a0) ctxSize b → ¬ Memory.Span h.userFrame (15 * xlenb) b

theorem kernelSaved_lt (h : Hart) : ∀ p ∈ h.kernelSaved, p.1 < 15 := by
  have hlt : ∀ p ∈ kernelRegs, p.2 < 15 := by decide
  intro p hp
  obtain ⟨q, hq, rfl⟩ := List.mem_map.mp hp
  exact hlt q (List.mem_reverse.mp hq)

theorem load_entering (hapart : h.ContextApart) {k : Nat} (hpos : 0 < k) (hk : k < 69)
    : h.entering.mem.load (Memory.slot (h.reg .a0) k) = h.mem.load (Memory.slot (h.reg .a0) k) := by
  have hslot : h.entering.mem.load (Memory.slot (h.reg .a0) k) =
      (h.mem.storeSlots h.userFrame h.kernelSaved).load (Memory.slot (h.reg .a0) k) :=
    Memory.load_slot_store_slot (by decide) (by omega) (by omega)
  rw [hslot]
  apply Memory.load_slot_congr hk (by decide)
  intro b hb
  exact Memory.storeSlots_of_not_span h.kernelSaved_lt (by decide) (hapart b hb)

theorem kernelSp_entering (h : Hart) : kernelSp h.entering.mem (h.reg .a0) = h.userFrame :=
  Memory.load_store_self

theorem load_userFrame (hapart : h.ContextApart) {r : Reg} {k : Nat} (hmem : (r, k) ∈ kernelRegs)
    : h.entering.mem.load (Memory.slot h.userFrame k) = h.reg r := by
  have hsaved : (k, h.reg r) ∈ h.kernelSaved :=
    List.mem_map_of_mem (f := fun p => (p.2, h.reg p.1)) (List.mem_reverse.mpr hmem)
  have hk : k < 15 := h.kernelSaved_lt _ hsaved
  have hdisjoint : h.entering.mem.load (Memory.slot h.userFrame k) =
      (h.mem.storeSlots h.userFrame h.kernelSaved).load (Memory.slot h.userFrame k) := by
    apply Memory.load_store_of_disjoint
    intro b hb hb'
    exact hapart b (Memory.span_of_span_slot (n := 69) (by decide) (by decide) hb')
      (Memory.span_of_span_slot hk (by decide) hb)
  rw [hdisjoint]
  have hfst : h.kernelSaved.map Prod.fst = kernelRegs.reverse.map Prod.snd := by
    simp [kernelSaved, Function.comp_def]
  apply Memory.load_storeSlots_of_mem _ _ hsaved
  . exact fun p hp => Nat.lt_trans (h.kernelSaved_lt p hp) (by decide)
  . rw [hfst]
    decide

theorem runUser_resumes (hapart : h.ContextApart)
    (hfs : ¬ (Context.load h.mem (h.reg .a0)).sstatus.floatOff)
    : ∃ h', h.runUser = some h' ∧ h'.ResumesFrom (Context.load h.mem (h.reg .a0)) ∧
        h'.csrs .sscratch = h.reg .a0 ∧ h'.mem = h.entering.mem := by
  have hload (k : Nat) (hpos : 0 < k) (hk : k < 69) := load_entering hapart hpos hk
  have hsp : h.entering.reg .sp = h.reg .a0 := rfl
  have hsstatus : (Context.load h.entering.mem (h.reg .a0)).sstatus =
      (Context.load h.mem (h.reg .a0)).sstatus := hload 64 (by decide) (by decide)
  obtain ⟨h', hexit, hresumes, hscratch, hmem⟩ :=
    h.entering.trapExit_resumes (by rw [hsp, hsstatus]; exact hfs)
  refine ⟨h', ?_, hresumes.congr hload, hscratch, hmem⟩
  rw [runUser, exec_runUser, Option.bind_some]
  exact hexit

def calleeSaved : List Reg :=
  [.sp, .gp, .tp, .s0, .s1, .s2, .s3, .s4, .s5, .s6, .s7, .s8, .s9, .s10, .s11]

-- The handler that was called in `h` has returned in `h'`, and the context is as it was.
structure HandlerReturns (h h' : Hart) : Prop where
  pc : h'.pc = h.reg .ra
  regs : ∀ r ∈ calleeSaved, h'.reg r = h.reg r
  context : ∀ b, Memory.Span (h.reg .sp) ctxSize b → h'.mem b = h.mem b
  sscratch : h'.csrs .sscratch = h.csrs .sscratch

-- The hart goes on where it was in `h`.
structure GoesOnFrom (h h' : Hart) : Prop where
  pc : h'.pc = h.pc
  mode : h'.mode = h.mode
  regs : ∀ r, h'.reg r = h.reg r
  fregs : ∀ f, h'.fregs f = h.fregs f
  sie : h'.csrs .sie = h.csrs .sie
  interruptEnable : (h'.csrs .sstatus).getLsbD DWord.sie = (h.csrs .sstatus).getLsbD DWord.sie
  sscratch : h'.csrs .sscratch = 0

/--
A trap comes to the handler with the address of a context that has the registers, and when the handler has
returned the hart goes on where the trap was taken.
-/
def ResumesAfterTrap (handler link : DWord) (h : Hart) (cause tval : DWord) : Prop :=
  ∃ h₁, (h.trap cause tval).trapEntry handler link = some h₁ ∧ h₁.pc = handler ∧ h₁.reg .ra = link ∧
    (Context.load h₁.mem (h₁.reg .a0)).Of (h.trap cause tval) ∧
    ∀ h₂, HandlerReturns h₁ h₂ → ∃ h₃, h₂.trapExit = some h₃ ∧ GoesOnFrom h h₃

theorem goesOnFrom_of_resumesFrom {ctx : Context} {cause tval : DWord} (hmode : h.mode = .supervisor)
    (hof : ctx.Of (h.trap cause tval)) (hresumes : h'.ResumesFrom ctx) (hscratch : h'.csrs .sscratch = 0)
    : GoesOnFrom h h' := by
  constructor
  case pc => exact hresumes.pc.trans hof.sepc
  case mode =>
    rw [hresumes.mode, hof.sstatus, getLsbD_trap_spp, hmode]
    rfl
  case regs =>
    intro r
    by_cases hzero : r = .zero
    . simp [reg, hzero]
    . exact (hresumes.regs r hzero).trans (hof.regs r hzero)
  case fregs => exact fun f => (hresumes.fregs f).trans (hof.fregs f)
  case sie => exact hresumes.sie.trans hof.sie
  case interruptEnable =>
    rw [hresumes.sstatus, hof.sstatus]
    simp only [getLsbD_setBit _ (by decide : DWord.spp < 64), getLsbD_setBit _ (by decide : DWord.spie < 64),
      getLsbD_setBit _ (by decide : DWord.sie < 64), trap, setCsr, Function.update_self]
    simp [DWord.spp, DWord.sie, DWord.spie]
  case sscratch => exact hscratch

theorem ResumesFrom.not_floatOff {ctx : Context} (hresumes : h.ResumesFrom ctx)
    : ¬ (h.csrs .sstatus).floatOff := by
  rw [hresumes.sstatus, floatOff_setBit _ (by decide), floatOff_setBit _ (by decide),
    floatOff_setBit _ (by decide)]
  exact not_floatOff_floatDirty ctx.sstatus

theorem trapEntry_trap (handler link : DWord) (hmode : h.mode = .supervisor)
    (hfs : ¬ (h.csrs .sstatus).floatOff) (cause tval : DWord)
    : ∃ h', (h.trap cause tval).trapEntry handler link = some h' ∧
        CallsHandler handler link (h.trap cause tval) h' := by
  apply trapEntry_kernel
  . simp [getLsbD_trap_spp, hmode]
  . rw [floatOff_trap]
    exact hfs

theorem CallsHandler.trapExit {h₁ h₂ : Hart} {cause tval : DWord} (hmode : h.mode = .supervisor)
    (hfs : ¬ (h.csrs .sstatus).floatOff) (hcalls : CallsHandler handler link (h.trap cause tval) h₁)
    (hreturns : HandlerReturns h₁ h₂)
    : ∃ h₃, h₂.trapExit = some h₃ ∧ GoesOnFrom h h₃ ∧ ¬ (h₃.csrs .sstatus).floatOff ∧ h₃.mem = h₂.mem := by
  have hof : (Context.load h₁.mem (h₁.reg .sp)).Of (h.trap cause tval) := by
    rw [hcalls.sp]
    exact hcalls.of
  have hsp : h₂.reg .sp = h₁.reg .sp := hreturns.regs .sp (by decide)
  have hctx : Context.load h₂.mem (h₂.reg .sp) = Context.load h₁.mem (h₁.reg .sp) := by
    rw [hsp]
    exact Context.load_congr hreturns.context
  have hfs₂ : ¬ (Context.load h₂.mem (h₂.reg .sp)).sstatus.floatOff := by
    rw [hctx, hof.sstatus, floatOff_trap]
    exact hfs
  obtain ⟨h₃, hexit, hresumes, hscratch, hmem⟩ := h₂.trapExit_resumes hfs₂
  rw [hctx] at hresumes
  refine ⟨h₃, hexit, goesOnFrom_of_resumesFrom hmode hof hresumes ?_, hresumes.not_floatOff, hmem⟩
  rw [hscratch, hreturns.sscratch, hcalls.sscratch]

theorem resumesAfterTrap (hmode : h.mode = .supervisor) (hfs : ¬ (h.csrs .sstatus).floatOff)
    (cause tval : DWord)
    : h.ResumesAfterTrap handler link cause tval := by
  obtain ⟨h₁, hentry, hcalls⟩ := trapEntry_trap handler link hmode hfs cause tval
  refine ⟨h₁, hentry, hcalls.pc, hcalls.ra, ?_, ?_⟩
  . rw [hcalls.a0]
    exact hcalls.of
  . intro h₂ hreturns
    obtain ⟨h₃, hexit, hgoes, _⟩ := hcalls.trapExit hmode hfs hreturns
    exact ⟨h₃, hexit, hgoes⟩

-- The program that was entered in `h₁` runs up to a trap in `h₂`. It cannot write to the memory of the
-- kernel and to its control registers.
structure UserRuns (h h₁ h₂ : Hart) : Prop where
  mode : h₁.mode = .user
  mode' : h₂.mode = .user
  csrs : h₂.csrs = h₁.csrs
  context : ∀ b, Memory.Span (h.reg .a0) ctxSize b → h₂.mem b = h₁.mem b
  stack : ∀ b, Memory.Span h.userFrame (15 * xlenb) b → h₂.mem b = h₁.mem b

-- The call of `run_user` in `h` has returned in `h'`.
structure ReturnsFrom (h h' : Hart) : Prop where
  pc : h'.pc = h.reg .ra
  mode : h'.mode = .supervisor
  regs : ∀ r ∈ Reg.ra :: calleeSaved, h'.reg r = h.reg r
  sscratch : h'.csrs .sscratch = 0

/--
A call of `run_user` goes on with the registers of the context, and the next trap of the user program makes
it return to its caller, with the registers of the program in the context.
-/
def ReturnsAfterUser (handler link : DWord) (h : Hart) : Prop :=
  ∃ h₁, h.runUser = some h₁ ∧ h₁.ResumesFrom (Context.load h.mem (h.reg .a0)) ∧
    ∀ h₂ cause tval, UserRuns h h₁ h₂ → ∃ h₃,
      (h₂.trap cause tval).trapEntry handler link = some h₃ ∧ ReturnsFrom h h₃ ∧
        (Context.load h₃.mem (h.reg .a0)).Of (h₂.trap cause tval)

/--
While a user program runs the registers of the kernel are on its stack, and the stack pointer is in the context.
-/
structure KernelParked (h : Hart) (mem : Memory) : Prop where
  sp : kernelSp mem (h.reg .a0) = h.userFrame
  regs : ∀ r k, (r, k) ∈ kernelRegs → mem.load (Memory.slot h.userFrame k) = h.reg r

theorem kernelParked_entering (hapart : h.ContextApart) : h.KernelParked h.entering.mem :=
  ⟨kernelSp_entering h, fun _ _ hmem => load_userFrame hapart hmem⟩

theorem kernelRegs_lt {r : Reg} {k : Nat} (hmem : (r, k) ∈ kernelRegs) : k < 15 := by
  have hlt : ∀ p ∈ kernelRegs, p.2 < 15 := by decide
  exact hlt (r, k) hmem

theorem KernelParked.congr {mem mem' : Memory} (hparked : h.KernelParked mem)
    (hctx : ∀ b, Memory.Span (h.reg .a0) ctxSize b → mem' b = mem b)
    (hstack : ∀ b, Memory.Span h.userFrame (15 * xlenb) b → mem' b = mem b)
    : h.KernelParked mem' := by
  constructor
  . rw [kernelSp, Memory.load_slot_congr (by decide : 0 < 69) (by decide) hctx]
    exact hparked.sp
  . intro r k hmem
    rw [Memory.load_slot_congr (kernelRegs_lt hmem) (by decide) hstack]
    exact hparked.regs r k hmem

theorem kernelSp_storeFrame (user : Hart) (mem : Memory) (base : DWord)
    : kernelSp (mem.storeSlots base user.frame) base = kernelSp mem base := by
  have hnot : 0 ∉ user.frame.map Prod.fst := by
    rw [frame_slots]
    decide
  have hlt : ∀ p ∈ user.frame, p.1 < 2 ^ 60 := fun p hp => Nat.lt_trans (user.frame_lt p hp) (by decide)
  exact Memory.load_storeSlots_of_not_mem hlt (by decide) hnot

theorem KernelParked.storeFrame (hapart : h.ContextApart) {mem : Memory} (hparked : h.KernelParked mem)
    (user : Hart)
    : h.KernelParked (mem.storeSlots (h.reg .a0) user.frame) := by
  constructor
  . rw [kernelSp_storeFrame]
    exact hparked.sp
  . intro r k hmem
    rw [← hparked.regs r k hmem]
    apply Memory.load_slot_congr (kernelRegs_lt hmem) (by decide)
    intro b hb
    exact Memory.storeSlots_of_not_span user.frame_lt (by decide) fun hb' => hapart b hb' hb

theorem userFrame_add (h : Hart) : h.userFrame + BitVec.ofNat 64 (15 * xlenb) = h.reg .sp := by
  rw [userFrame]
  bv_omega

theorem returnsFrom_of_parked (hnull : h.reg .a0 ≠ 0) (hapart : h.ContextApart) (hparked : h.KernelParked h'.mem)
    (hmode : h'.mode = .user) (hscratch : h'.csrs .sscratch = h.reg .a0) (hfs : ¬ (h'.csrs .sstatus).floatOff)
    (cause tval : DWord)
    : ∃ h₁, (h'.trap cause tval).trapEntry handler link = some h₁ ∧ ReturnsFrom h h₁ ∧
        (Context.load h₁.mem (h.reg .a0)).Of (h'.trap cause tval) ∧
        ∀ csr, csr ≠ .sscratch → h₁.csrs csr = (h'.trap cause tval).csrs csr := by
  have hfs' : ¬ ((h'.trap cause tval).csrs .sstatus).floatOff := by
    rw [floatOff_trap]
    exact hfs
  have hspp : ((h'.trap cause tval).csrs .sstatus).getLsbD DWord.spp = false := by
    simp [getLsbD_trap_spp, hmode]
  have hbase : (h'.trap cause tval).trapBase = h.reg .a0 := by
    have hscratch' : (h'.trap cause tval).csrs .sscratch = h.reg .a0 := hscratch
    rw [trapBase_user (by rw [hscratch']; exact hnull), hscratch']
  obtain ⟨h₁, hentry, hleaves⟩ := trapEntry_user handler link hspp hfs'
  obtain ⟨hregs, hsp, hpc, hmode₁, hscratch₁, hcsrs, hmem⟩ := hleaves
  rw [hbase] at hregs hsp hmem
  have hparked₁ : h.KernelParked h₁.mem := by
    rw [hmem]
    exact hparked.storeFrame hapart _
  rw [hparked₁.sp] at hregs hsp
  have hkernel (r : Reg) (k : Nat) (hr : (r, k) ∈ kernelRegs) : h₁.reg r = h.reg r :=
    (hregs r k hr).trans (hparked₁.regs r k hr)
  refine ⟨h₁, hentry, ⟨?_, hmode₁, ?_, hscratch₁⟩, ?_, hcsrs⟩
  . rw [hpc]
    exact hkernel .ra 12 (by decide)
  . intro r hr
    have hcases : ∀ r ∈ Reg.ra :: calleeSaved, r = .sp ∨ ∃ p ∈ kernelRegs, p.1 = r := by decide
    rcases hcases r hr with rfl | ⟨p, hp, rfl⟩
    . exact hsp.trans h.userFrame_add
    . exact hkernel p.1 p.2 hp
  . rw [hmem]
    exact of_swapped _ _ _ _

theorem returnsFrom_of_user {h₁ h₂ : Hart} {ctx : Context} (hnull : h.reg .a0 ≠ 0) (hapart : h.ContextApart)
    (hresumes : h₁.ResumesFrom ctx) (hscratch : h₁.csrs .sscratch = h.reg .a0)
    (hparked : h.KernelParked h₁.mem) (huser : UserRuns h h₁ h₂) (handler link cause tval : DWord)
    : ∃ h₃, (h₂.trap cause tval).trapEntry handler link = some h₃ ∧ ReturnsFrom h h₃ ∧
        (Context.load h₃.mem (h.reg .a0)).Of (h₂.trap cause tval) ∧
        ∀ csr, csr ≠ .sscratch → h₃.csrs csr = (h₂.trap cause tval).csrs csr := by
  have hscratch₂ : h₂.csrs .sscratch = h.reg .a0 := by
    rw [huser.csrs, hscratch]
  have hfs : ¬ (h₂.csrs .sstatus).floatOff := by
    rw [huser.csrs]
    exact hresumes.not_floatOff
  have hparked₂ := hparked.congr huser.context huser.stack
  exact returnsFrom_of_parked hnull hapart hparked₂ huser.mode' hscratch₂ hfs cause tval

theorem returnsAfterUser (hnull : h.reg .a0 ≠ 0) (hapart : h.ContextApart)
    (hfs : ¬ (Context.load h.mem (h.reg .a0)).sstatus.floatOff)
    : h.ReturnsAfterUser handler link := by
  obtain ⟨h₁, hrun, hresumes, hscratch, hmem⟩ := runUser_resumes hapart hfs
  have hparked : h.KernelParked h₁.mem := by
    rw [hmem]
    exact kernelParked_entering hapart
  refine ⟨h₁, hrun, hresumes, ?_⟩
  intro h₂ cause tval huser
  obtain ⟨h₃, hentry, hreturns, hof, _⟩ :=
    returnsFrom_of_user hnull hapart hresumes hscratch hparked huser handler link cause tval
  exact ⟨h₃, hentry, hreturns, hof⟩

theorem trap_roundTrip (handler link : DWord)
    : (∀ (h : Hart) (cause tval : DWord), h.mode = .supervisor → h.csrs .sscratch = 0 →
        ¬ (h.csrs .sstatus).floatOff → h.ResumesAfterTrap handler link cause tval) ∧
      ∀ h : Hart, h.reg .a0 ≠ 0 → h.ContextApart →
        ¬ (Context.load h.mem (h.reg .a0)).sstatus.floatOff → h.ReturnsAfterUser handler link := by
  constructor
  . intro h cause tval hmode _ hfs
    exact resumesAfterTrap hmode hfs cause tval
  . intro h hnull hapart hfs
    exact returnsAfterUser hnull hapart hfs

-- A call of `run_user` with the context that `user_setup` prepares at `0x80002000`.
def callsUser : Hart :=
  {
    regs := fun r => if r = .a0 then 0x80002000 else 0x80001000
    fregs := fun _ => 0
    csrs := fun csr => if csr = .sstatus then 0x6000 else 0
    mem := Memory.store (fun _ => 0) (Memory.slot 0x80002000 64) 0x42020
    mode := .supervisor
    pc := 0
  }

theorem contextApart_callsUser : callsUser.ContextApart := by
  intro b hb hb'
  have ha0 : callsUser.reg .a0 = 0x80002000 := rfl
  have hframe : callsUser.userFrame = 0x80000f88 := rfl
  rw [ha0] at hb
  rw [hframe] at hb'
  simp only [Memory.Span, ctxSize, xlenb] at hb hb'
  bv_omega

theorem sstatus_callsUser : (Context.load callsUser.mem (callsUser.reg .a0)).sstatus = 0x42020 :=
  Memory.load_store_self

theorem trap_roundTrip_callsUser
    : callsUser.ResumesAfterTrap 0x80200000 0x80100000 5 0 ∧
        callsUser.ReturnsAfterUser 0x80200000 0x80100000 := by
  have h := trap_roundTrip 0x80200000 0x80100000
  refine ⟨h.1 callsUser 5 0 rfl rfl (by decide), h.2 callsUser (by decide) contextApart_callsUser ?_⟩
  rw [sstatus_callsUser]
  decide

structure EntersExactly (h : Hart) (ctx : Context) : Prop where
  mode : h.mode = .user
  pc : h.pc = ctx.sepc
  regs : ∀ r, r ≠ .zero → h.reg r = ctx.regs r
  fregs : ∀ f, h.fregs f = ctx.fregs f
  sstatus : h.csrs .sstatus = ctx.sstatus
  scause : h.csrs .scause = ctx.scause
  sie : h.csrs .sie = ctx.sie
  stval : h.csrs .stval = ctx.stval

-- `sret` changes `sstatus`.
theorem entersExactly_callsUser_false
    : ¬ ∀ h : Hart, h.reg .a0 ≠ 0 → h.ContextApart →
        ¬ (Context.load h.mem (h.reg .a0)).sstatus.floatOff →
          ∃ h', h.runUser = some h' ∧ h'.EntersExactly (Context.load h.mem (h.reg .a0)) := by
  intro hall
  have hfs : ¬ (Context.load callsUser.mem (callsUser.reg .a0)).sstatus.floatOff := by
    rw [sstatus_callsUser]
    decide
  obtain ⟨h₁, hrun₁, hresumes, _⟩ := runUser_resumes contextApart_callsUser hfs
  obtain ⟨h₂, hrun₂, henters⟩ := hall callsUser (by decide) contextApart_callsUser hfs
  cases hrun₁.symm.trans hrun₂
  have hsstatus := hresumes.sstatus.symm.trans henters.sstatus
  rw [sstatus_callsUser] at hsstatus
  revert hsstatus
  decide

end Hart

end Jrinx
