import Jrinx.Trap.EnterState

/-!
This module contains at which boundaries of `run_user` an interrupt is tolerated: before `sscratch` is set the
trap entry saves the registers on the stack, after that it saves them over the context of the user program.
-/

namespace Jrinx

def Instr.writesCsr (i : Instr) (csr : Csr) : Bool :=
  match i with
  | .csrrw _ csr' _ => csr' = csr
  | .csrw csr' _ => csr' = csr
  | .fld _ _ _ => .sstatus = csr
  | _ => false

namespace Hart

variable {image : KernelImage} {h h₁ h' s s' : Hart} {j : Nat} {cause tval : DWord}

theorem EnterState.kernelParked (hstate : EnterState image h 20 s) : h.KernelParked s.mem :=
  ⟨hstate.mem.parked (by decide), fun r k hr => hstate.mem.saved r k hr (by omega)⟩

-- From where `sscratch` is set `trap_exit` does the rest.
theorem EnterState.getsToUser_of_set (hcalls : CallsRunUser image h) (hstate : EnterState image h 20 s)
    : GetsToUser image h s := by
  have hsp : s.reg .sp = h.reg .a0 := by
    rw [hstate.sp, enterSp_context h (by decide)]
  have hgoOn : s.goOn image = s.trapExit := goOn_of_place hstate.pc (by decide)
  have hload := hstate.mem.context
  have hsstatus : (Context.load s.mem (s.reg .sp)).sstatus = (Context.load h.mem (h.reg .a0)).sstatus := by
    rw [hsp]
    exact hload 64 (by decide) (by decide)
  obtain ⟨h₁, hexit, hresumes, hscratch, hmem⟩ := s.trapExit_resumes (by rw [hsstatus]; exact hcalls.userFloatOn)
  rw [hsp] at hresumes
  have hresumes₁ := hresumes.congr hload
  have hscratch₁ : h₁.csrs .sscratch = h.reg .a0 := by
    rw [hscratch, hstate.userTrap (by decide)]
  have hparked : h.KernelParked h₁.mem := by
    rw [hmem]
    exact hstate.kernelParked
  refine ⟨h₁, hgoOn.trans hexit, ?_, hresumes₁, ?_⟩
  . rw [hresumes₁.mode, hcalls.user]
    rfl
  . intro h₂ cause tval huser
    obtain ⟨h₃, hentry, hreturns, _⟩ := returnsFrom_of_user hcalls.null hcalls.contextApart hresumes₁ hscratch₁
      hparked huser image.handler image.link cause tval
    exact ⟨h₃, hentry, hreturns⟩

theorem EnterState.getsToUser (hcalls : CallsRunUser image h) {n : Nat} (hj : j + n = 20)
    (hstate : EnterState image h j s)
    : GetsToUser image h s := by
  induction n generalizing j s with
  | zero =>
    obtain rfl : j = 20 := hj
    exact hstate.getsToUser_of_set hcalls
  | succ n ih =>
    obtain ⟨i, s', hinstr, hexec, hstate'⟩ := hstate.instr hcalls.contextApart (by omega)
    have hgets := ih (by omega) hstate'
    rw [GetsToUser, goOn_instr hstate.pc hinstr hexec] at hgets
    exact hgets

structure EnterRun (image : KernelImage) (h s : Hart) : Prop where
  getsToUser : GetsToUser image h s
  boundary : ∃ j ≤ enterCode.length, s.pc = image.place j ∧ (j ≤ 20 → EnterState image h j s)

theorem EnterState.enterRun (hcalls : CallsRunUser image h) (hj : j ≤ 20) (hstate : EnterState image h j s)
    : EnterRun image h s := by
  obtain ⟨n, hn⟩ := Nat.exists_eq_add_of_le hj
  exact ⟨hstate.getsToUser hcalls hn.symm, j, Nat.le_trans hj (by decide), hstate.pc, fun _ => hstate⟩

theorem EnterRun.enterState (hrun : EnterRun image h s) (hpc : s.pc = image.place j)
    (hj : j ≤ enterCode.length) (h20 : j ≤ 20)
    : EnterState image h j s := by
  obtain ⟨k, hk, hpc', hstate⟩ := hrun.boundary
  obtain rfl : k = j := image.place_inj k hk j hj (hpc'.symm.trans hpc)
  exact hstate h20

theorem Enters.enterRun (hcalls : CallsRunUser image h) (henters : Enters image (SafeBoundary image h) h s)
    : EnterRun image h s := by
  induction henters with
  | call => exact hcalls.enterState.enterRun hcalls (by decide)
  | @instr s s' j i _ hpc hinstr hexec ih =>
    obtain ⟨hj, _⟩ := List.getElem?_eq_some_iff.mp hinstr
    by_cases h20 : j < 20
    . have hstate := ih.enterState hpc (Nat.le_of_lt hj) (Nat.le_of_lt h20)
      obtain ⟨i', s'', hinstr', hexec', hstate'⟩ := hstate.instr hcalls.contextApart h20
      cases hinstr.symm.trans hinstr'
      cases hexec.symm.trans hexec'
      exact hstate'.enterRun hcalls h20
    . refine ⟨?_, j + 1, hj, rfl, fun hle => absurd hle (by omega)⟩
      rw [GetsToUser, goOn_instr hpc hinstr hexec]
      exact ih.getsToUser
  | @interrupt s h₁ h₂ s' j int tval _ hpc hj hsafe _ hentry hreturns hexit ih =>
    have hstate := ih.enterState hpc hj (Nat.le_of_lt hsafe.lt)
    obtain ⟨h₁', hentry', _, _, hgoes⟩ := hstate.interrupt hcalls hsafe int.cause tval
    cases hentry.symm.trans hentry'
    obtain ⟨s'', hexit', hstate'⟩ := hgoes h₂ hreturns
    cases hexit.symm.trans hexit'
    exact hstate'.enterRun hcalls (Nat.le_of_lt hsafe.lt)

theorem toleratesInterrupts_safe (hcalls : CallsRunUser image h)
    : ToleratesInterrupts image (SafeBoundary image h) h := by
  intro s henters
  have hrun := henters.enterRun hcalls
  refine ⟨hrun.getsToUser, ?_⟩
  intro j int tval hpc hj hsafe _
  have hstate := hrun.enterState hpc hj (Nat.le_of_lt hsafe.lt)
  obtain ⟨h₁, hentry, hpc₁, hra₁, hgoes⟩ := hstate.interrupt hcalls hsafe int.cause tval
  refine ⟨h₁, hentry, hpc₁, hra₁, ?_⟩
  intro h₂ hreturns
  obtain ⟨s', hexit, hstate'⟩ := hgoes h₂ hreturns
  exact ⟨s', hexit, (hstate'.enterRun hcalls (Nat.le_of_lt hsafe.lt)).getsToUser⟩

theorem exec_trapFromUserSt_floatOff (hoff : (h.csrs .sstatus).floatOff) : h.exec trapFromUserStCode = none := by
  have hfregs (mem : Memory)
      : { h with mem }.exec (savedFregs.map fun f => pushFreg f (ctxOffsFreg f)) = none := by
    rw [savedFregs, List.map_cons, exec, pushFreg, execInstr, if_pos hoff, Option.bind_none]
  rw [trapFromUserStCode, List.append_assoc, List.append_assoc, exec_append_of_eq (exec_saveRegs h), exec_append,
    hfregs, Option.bind_none]

theorem trapEntry_floatOff (handler link : DWord) (hoff : (h.csrs .sstatus).floatOff)
    : h.trapEntry handler link = none := by
  have hoff' : ((h.swapped h.trapBase).csrs .sstatus).floatOff := hoff
  rw [trapEntry_swapped, trapFromUserSt, exec_trapFromUserSt_floatOff hoff', Option.bind_none]

theorem csrs_setReg (s : Hart) (r : Reg) (v : DWord) : (s.setReg r v).csrs = s.csrs := by
  unfold setReg
  split <;> rfl

theorem execInstr_csr {i : Instr} {csr : Csr} (hi : i.writesCsr csr = false) (hexec : s.execInstr i = some s')
    : s'.csrs csr = s.csrs csr := by
  cases i with
  | csrrw rd csr' rs =>
    have hne : csr ≠ csr' := by simpa [Instr.writesCsr, eq_comm] using hi
    cases hexec
    rw [csrs_setReg]
    exact Function.update_of_ne hne _ _
  | csrw csr' rs =>
    have hne : csr ≠ csr' := by simpa [Instr.writesCsr, eq_comm] using hi
    cases hexec
    exact Function.update_of_ne hne _ _
  | fld fd offset rs =>
    have hne : csr ≠ .sstatus := by simpa [Instr.writesCsr, eq_comm] using hi
    simp only [execInstr] at hexec
    split at hexec
    . cases hexec
    . cases hexec
      exact Function.update_of_ne hne _ _
  | fsd fd offset rs =>
    simp only [execInstr] at hexec
    split at hexec
    . cases hexec
    . cases hexec
      rfl
  | sd =>
    cases hexec
    rfl
  | _ =>
    cases hexec
    rw [csrs_setReg]

theorem exec_csr {code : List Instr} {csr : Csr} (hcode : ∀ i ∈ code, i.writesCsr csr = false)
    (hexec : s.exec code = some s')
    : s'.csrs csr = s.csrs csr := by
  induction code generalizing s with
  | nil =>
    cases hexec
    rfl
  | cons i code ih =>
    obtain ⟨s₁, hi, hrest⟩ := Option.bind_eq_some_iff.mp hexec
    rw [ih (fun i' hi' => hcode i' (List.mem_cons_of_mem i hi')) hrest]
    exact execInstr_csr (hcode i List.mem_cons_self) hi

-- After `csrw sscratch, sp` nothing sets `sscratch` again.
theorem goOn_sscratch (hpc : s.pc = image.place j) (h20 : 20 ≤ j) (hj : j ≤ enterCode.length)
    (hgoOn : s.goOn image = some s')
    : s'.csrs .sscratch = s.csrs .sscratch := by
  rw [goOn_of_place hpc hj] at hgoOn
  obtain ⟨s₁, hexec, rfl⟩ := Option.map_eq_some_iff.mp hgoOn
  have hexit : ∀ i ∈ enterCode.drop 20, i.writesCsr .sscratch = false := by decide
  have hcode : ∀ i ∈ enterCode.drop j, i.writesCsr .sscratch = false := by
    intro i hi
    apply hexit
    rw [← Nat.add_sub_of_le h20, ← List.drop_drop] at hi
    exact List.mem_of_mem_drop hi
  have hsret : s₁.sret.csrs .sscratch = s₁.csrs .sscratch := rfl
  rw [hsret, exec_csr hcode hexec]

theorem returnsNow (hcalls : CallsHandler image.handler image.link (s.trap cause tval) h₁)
    : InterruptReturns image h h₁ { h₁ with pc := h₁.reg .ra } := by
  constructor
  case interruptEnable =>
    have hsstatus := hcalls.csrs .sstatus (by decide)
    rw [← getLsbD_trap_sie s cause tval, ← hsstatus]
  case mem => exact fun _ _ _ => rfl
  case toHandlerReturns => exact ⟨rfl, fun _ _ => rfl, fun _ _ => rfl, rfl⟩

-- A user program that was entered with `sscratch` zero chooses the stack pointer of the kernel.
def choosesSp (h₁ : Hart) (a sp : DWord) : Hart :=
  {
    h₁ with
    regs := Function.update h₁.regs .sp (a + BitVec.ofNat 64 ctxSize)
    mem := h₁.mem.store (Memory.slot a 0) sp
  }

theorem trapEntry_choosesSp (hmode : h₁.mode = .user) (hscratch : h₁.csrs .sscratch = 0)
    (hfs : ¬ (h₁.csrs .sstatus).floatOff) (a sp handler link : DWord)
    : ∃ h₂, ((h₁.choosesSp a sp).trap 0 0).trapEntry handler link = some h₂ ∧
        h₂.reg .sp = sp + BitVec.ofNat 64 (15 * xlenb) := by
  have hspp : (((h₁.choosesSp a sp).trap 0 0).csrs .sstatus).getLsbD DWord.spp = false := by
    have hmode' : (h₁.choosesSp a sp).mode = .user := hmode
    simp [getLsbD_trap_spp, hmode']
  have hfs' : ¬ (((h₁.choosesSp a sp).trap 0 0).csrs .sstatus).floatOff := by
    rw [floatOff_trap]
    exact hfs
  have hbase : ((h₁.choosesSp a sp).trap 0 0).trapBase = a := by
    have hreg : ((h₁.choosesSp a sp).trap 0 0).reg .sp = a + BitVec.ofNat 64 ctxSize := rfl
    have hscratch' : ((h₁.choosesSp a sp).trap 0 0).csrs .sscratch = 0 := hscratch
    rw [trapBase_kernel hscratch', hreg]
    bv_omega
  obtain ⟨h₂, hentry, hleaves⟩ := trapEntry_user handler link hspp hfs'
  refine ⟨h₂, hentry, ?_⟩
  have hstored : kernelSp (h₁.mem.store (Memory.slot a 0) sp) a = sp := Memory.load_store_self
  have hmem : ((h₁.choosesSp a sp).trap 0 0).mem = h₁.mem.store (Memory.slot a 0) sp := rfl
  rw [hleaves.sp, hleaves.mem, hbase, kernelSp_storeFrame, hmem, hstored]

theorem exists_not_returnsFrom (h : Hart) (hmode : h₁.mode = .user) (hscratch : h₁.csrs .sscratch = 0)
    (hfs : ¬ (h₁.csrs .sstatus).floatOff) (handler link : DWord)
    : ∃ h₂, UserRuns h h₁ h₂ ∧ ∀ h₃, (h₂.trap 0 0).trapEntry handler link = some h₃ → ¬ ReturnsFrom h h₃ := by
  have hsize : ctxSize + 2 * (15 * xlenb) + 16 ≤ 2 ^ 64 := by
    unfold ctxSize xlenb
    decide
  obtain ⟨a, hfree⟩ := Memory.exists_span_apart (b := h.reg .a0) (c := h.userFrame) hsize
  have hslot : Memory.slot a 0 = a := by simp [Memory.slot]
  refine ⟨h₁.choosesSp a (h.reg .sp), ?_, ?_⟩
  . constructor
    case mode => exact hmode
    case mode' => exact hmode
    case csrs => rfl
    case context =>
      intro b hb
      apply Memory.store_of_not_span
      rw [hslot]
      exact fun hb' => (hfree b hb').1 hb
    case stack =>
      intro b hb
      apply Memory.store_of_not_span
      rw [hslot]
      exact fun hb' => (hfree b hb').2 hb
  . intro h₃ hentry hreturns
    obtain ⟨h₃', hentry', hsp⟩ := trapEntry_choosesSp hmode hscratch hfs a (h.reg .sp) handler link
    cases hentry.symm.trans hentry'
    have hkept : h₃.reg .sp = h.reg .sp := hreturns.regs .sp (by decide)
    rw [hsp] at hkept
    unfold xlenb at hkept
    bv_omega

theorem not_goesOnAfter_of_set (hpc : s.pc = image.place j) (h20 : 20 ≤ j) (hj : j ≤ enterCode.length)
    {int : SupervisorInt} (htakes : s.TakesInterrupt int) (tval : DWord)
    : ¬ GoesOnAfter image h s int tval := by
  intro ⟨h₁, hentry, _, _, hgoes⟩
  have hfs : ¬ (s.csrs .sstatus).floatOff := by
    intro hoff
    rw [← floatOff_trap s int.cause tval] at hoff
    cases hentry.symm.trans (trapEntry_floatOff image.handler image.link hoff)
  obtain ⟨h₁', hentry', hcallsHandler⟩ :=
    trapEntry_trap image.handler image.link htakes.1 hfs int.cause tval
  cases hentry.symm.trans hentry'
  have hreturns := returnsNow (h := h) hcallsHandler
  obtain ⟨s', hexit, h₂, hgoOn, hmode, hresumes, huser⟩ := hgoes _ hreturns
  obtain ⟨s'', hexit', hgoesOn, _⟩ := hcallsHandler.trapExit htakes.1 hfs hreturns.toHandlerReturns
  cases hexit.symm.trans hexit'
  have hscratch : h₂.csrs .sscratch = 0 := by
    rw [goOn_sscratch (hgoesOn.pc.trans hpc) h20 hj hgoOn, hgoesOn.sscratch]
  obtain ⟨h₃, hruns, hnot⟩ :=
    exists_not_returnsFrom h hmode hscratch hresumes.not_floatOff image.handler image.link
  obtain ⟨h₄, hentry₄, hreturnsFrom⟩ := huser h₃ 0 0 hruns
  exact hnot h₄ hentry₄ hreturnsFrom

/--
The call of `run_user` tolerates interrupts at the boundaries before `csrw sscratch, sp`, on the two boundaries
where `sp` has the address of the context if the memory below the context is free, and none at a later boundary.
-/
theorem runUser_tolerates (hcalls : CallsRunUser image h)
    : ToleratesInterrupts image (SafeBoundary image h) h ∧
        ∀ s j int tval, s.pc = image.place j → 20 ≤ j → j ≤ enterCode.length → s.TakesInterrupt int →
          ¬ GoesOnAfter image h s int tval := by
  constructor
  . exact toleratesInterrupts_safe hcalls
  . intro s j int tval hpc h20 hj htakes
    exact not_goesOnAfter_of_set hpc h20 hj htakes tval

-- `run_user` at address 0, without compressed instructions.
def kernelImage : KernelImage where
  place := fun j => BitVec.ofNat 64 (4 * j)
  place_inj := by
    intro j hj k hk hplace
    rw [length_enterCode] at hj hk
    bv_omega
  handler := 0x80200000
  link := 0x80100000
  depth := 1024

theorem callsRunUser_callsUserAt : CallsRunUser kernelImage (callsUserAt 0x46002) := by
  constructor
  case pc => rfl
  case mode => rfl
  case sscratch => rfl
  case floatOn => decide
  case null => decide
  case stack =>
    intro b hb hbelow
    have ha0 : (callsUserAt 0x46002).reg .a0 = 0x80002000 := rfl
    have hsp : (callsUserAt 0x46002).reg .sp = 0x80001000 := rfl
    rw [ha0] at hb
    rw [hsp] at hbelow
    simp only [Memory.Span, Memory.Below, ctxSize, xlenb, kernelImage] at hb hbelow
    bv_omega
  case user =>
    have hsstatus := sstatus_callsUserAtContext 0x46002
    rw [callsUserAtContext] at hsstatus
    have ha0 : (callsUserAt 0x46002).reg .a0 = callsUser.reg .a0 := rfl
    rw [ha0, hsstatus]
    decide
  case userFloatOn =>
    have hsstatus := sstatus_callsUserAtContext 0x46002
    rw [callsUserAtContext] at hsstatus
    have ha0 : (callsUserAt 0x46002).reg .a0 = callsUser.reg .a0 := rfl
    rw [ha0, hsstatus]
    decide

theorem takesInterrupt_callsUserAt : (callsUserAt 0x46002).TakesInterrupt .external :=
  ⟨rfl, by decide, by decide⟩

theorem runUser_tolerates_callsUserAt
    : (callsUserAt 0x46002).TakesInterrupt .external ∧
        ToleratesInterrupts kernelImage (SafeBoundary kernelImage (callsUserAt 0x46002)) (callsUserAt 0x46002) :=
  ⟨takesInterrupt_callsUserAt, (runUser_tolerates callsRunUser_callsUserAt).1⟩

theorem CallsRunUser.exists_enters (hcalls : CallsRunUser image h) (allowed : Nat → Prop) (hj : j ≤ 20)
    : ∃ s, Enters image allowed h s ∧ EnterState image h j s := by
  induction j with
  | zero => exact ⟨h, .call, hcalls.enterState⟩
  | succ j ih =>
    obtain ⟨s, henters, hstate⟩ := ih (Nat.le_of_succ_le hj)
    obtain ⟨i, s', hinstr, hexec, hstate'⟩ := hstate.instr hcalls.contextApart hj
    exact ⟨_, henters.instr hstate.pc hinstr hexec, hstate'⟩

theorem not_tolerates
    : ¬ ∀ (image : KernelImage) (h : Hart), CallsRunUser image h →
        (h.csrs .sstatus).getLsbD DWord.sie = true → ToleratesInterrupts image (fun _ => True) h := by
  intro hall
  have hcalls := callsRunUser_callsUserAt
  obtain ⟨s, henters, hstate⟩ := hcalls.exists_enters (fun _ => True) (j := 20) (by decide)
  have htakes : s.TakesInterrupt .external :=
    (hstate.takesInterrupt_iff hcalls.mode .external).mpr takesInterrupt_callsUserAt
  obtain ⟨_, hgoes⟩ := hall kernelImage (callsUserAt 0x46002) hcalls (by decide) s henters
  exact not_goesOnAfter_of_set hstate.pc (by decide) (by decide) htakes 0
    (hgoes 20 .external 0 hstate.pc (by decide) trivial htakes)

end Hart

end Jrinx
