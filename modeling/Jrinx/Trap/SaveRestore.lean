import Jrinx.Trap.Entry

/-!
This module contains what the code that saves and restores the registers does: it moves them between a hart
and a `Context` in memory.
-/

namespace Jrinx

structure Context where
  regs : Reg → DWord
  fregs : FReg → DWord
  sstatus : DWord
  scause : DWord
  sie : DWord
  stval : DWord
  sepc : DWord

def Context.load (mem : Memory) (base : DWord) : Context :=
  {
    regs := fun r => mem.load (Memory.slot base r.ctorIdx)
    fregs := fun f => mem.load (Memory.slot base (32 + f.ctorIdx))
    sstatus := mem.load (Memory.slot base 64)
    scause := mem.load (Memory.slot base 65)
    sie := mem.load (Memory.slot base 66)
    stval := mem.load (Memory.slot base 67)
    sepc := mem.load (Memory.slot base 68)
  }

theorem Reg.ctorIdx_lt (r : Reg) : r.ctorIdx < 32 := by
  cases r <;> decide

theorem FReg.ctorIdx_lt (f : FReg) : f.ctorIdx < 32 := by
  cases f <;> decide

theorem Reg.ctorIdx_pos {r : Reg} (h : r ≠ .zero) : 0 < r.ctorIdx := by
  revert h
  cases r <;> decide

theorem Context.load_congr {mem mem' : Memory} {base : DWord}
    (h : ∀ b, Memory.Span base Hart.ctxSize b → mem b = mem' b)
    : Context.load mem base = Context.load mem' base := by
  have hslot {k : Nat} (hk : k < 69) : mem.load (Memory.slot base k) = mem'.load (Memory.slot base k) :=
    Memory.load_slot_congr hk (by decide) h
  have hregs (r : Reg) := hslot (Nat.lt_trans r.ctorIdx_lt (by decide))
  have hfregs (f : FReg) := hslot (Nat.add_lt_add_left f.ctorIdx_lt 32 |>.trans (by decide))
  simp only [Context.load, hregs, hfregs, hslot (by decide : 64 < 69), hslot (by decide : 65 < 69),
    hslot (by decide : 66 < 69), hslot (by decide : 67 < 69), hslot (by decide : 68 < 69)]

namespace Hart

variable {h : Hart}

theorem exec_append (h : Hart) (code code' : List Instr)
    : h.exec (code ++ code') = (h.exec code).bind fun h => h.exec code' := by
  induction code generalizing h with
  | nil => rfl
  | cons i code ih =>
    simp only [List.cons_append, exec]
    cases h.execInstr i with
    | none => rfl
    | some h' => exact ih h'

theorem exec_append_of_eq {h h' : Hart} {code : List Instr} (hexec : h.exec code = some h')
    (code' : List Instr)
    : h.exec (code ++ code') = h'.exec code' := by
  rw [exec_append, hexec, Option.bind_some]

theorem addr_slot (h : Hart) (r : Reg) (k : Nat) : h.addr r (k * xlenb) = Memory.slot (h.reg r) k := by
  rw [addr, Memory.slot, xlenb, Nat.mul_comm]

theorem exec_storeRegs (h : Hart) (base : Reg) (l : List (Reg × Nat))
    : h.exec (l.map fun p => .sd p.1 (p.2 * xlenb) base) =
        some
          { h with mem := h.mem.storeSlots (h.reg base) (l.map fun p => (p.2, h.reg p.1)) } := by
  induction l generalizing h with
  | nil => rfl
  | cons p l ih =>
    simp only [List.map_cons, exec, execInstr, Option.bind_some, addr_slot]
    exact ih _

theorem exec_pushRegs (h : Hart) (l : List (Reg × Nat))
    : h.exec (l.map fun p => pushReg p.1 (p.2 * xlenb)) =
        some
          { h with mem := h.mem.storeSlots (h.reg .sp) (l.map fun p => (p.2, h.reg p.1)) } :=
  h.exec_storeRegs .sp l

theorem exec_pushFregs (h : Hart) (hfs : ¬ (h.csrs .sstatus).floatOff) (l : List (FReg × Nat))
    : h.exec (l.map fun p => pushFreg p.1 (p.2 * xlenb)) =
        some
          { h with mem := h.mem.storeSlots (h.reg .sp) (l.map fun p => (p.2, h.fregs p.1)) } := by
  induction l generalizing h with
  | nil => rfl
  | cons p l ih =>
    simp only [List.map_cons, exec, pushFreg, execInstr, hfs, if_false, Option.bind_some, addr_slot]
    exact ih _ hfs

theorem exec_loadRegs (h : Hart) (base : Reg) (l : List (Reg × Nat))
    (hl : ∀ p ∈ l, p.1 ≠ base ∧ p.1 ≠ .zero)
    : h.exec (l.map fun p => .ld p.1 (p.2 * xlenb) base) =
        some { h with regs := h.mem.loadSlots (h.reg base) l h.regs } := by
  induction l generalizing h with
  | nil => rfl
  | cons p l ih =>
    obtain ⟨hbase, hzero⟩ := hl p List.mem_cons_self
    have hreg (v : DWord)
        : { h with regs := Function.update h.regs p.1 v }.reg base = h.reg base := by
      simp only [reg, Function.update_of_ne (Ne.symm hbase)]
    simp only [List.map_cons, exec, execInstr, Option.bind_some, addr_slot, setReg, hzero, if_false]
    refine (ih _ fun q hq => hl q (List.mem_cons_of_mem p hq)).trans ?_
    simp only [hreg, Memory.loadSlots_cons]

theorem exec_popRegs (h : Hart) (l : List (Reg × Nat)) (hl : ∀ p ∈ l, p.1 ≠ .sp ∧ p.1 ≠ .zero)
    : h.exec (l.map fun p => popReg p.1 (p.2 * xlenb)) =
        some { h with regs := h.mem.loadSlots (h.reg .sp) l h.regs } :=
  h.exec_loadRegs .sp l hl

theorem getLsbD_setBit (w : DWord) {i : Nat} (hi : i < 64) (b : Bool) (j : Nat)
    : (w.setBit i b).getLsbD j = if j = i then b else w.getLsbD j := by
  unfold DWord.setBit
  have hbit : (1#64 <<< i).getLsbD j = decide (j = i) := by
    simp only [BitVec.getLsbD_shiftLeft, BitVec.getLsbD_one]
    grind
  cases b with
  | true =>
    simp only [if_true, BitVec.getLsbD_or, hbit]
    split
    . next h => simp [h]
    . next h => simp [h]
  | false =>
    simp only [Bool.false_eq_true, if_false, BitVec.getLsbD_and, BitVec.getLsbD_not, hbit]
    split
    . next h => simp [h]
    . next h =>
      by_cases hj : j < 64
      . simp [h, hj]
      . simp [h, BitVec.getLsbD_of_ge w j (by omega)]

theorem getLsbD_floatDirty (sstatus : DWord) {i : Nat} (hi : i ≠ 13 ∧ i ≠ 14)
    : sstatus.floatDirty.getLsbD i = sstatus.getLsbD i := by
  rw [DWord.floatDirty, getLsbD_setBit _ (by decide), if_neg hi.2, getLsbD_setBit _ (by decide),
    if_neg hi.1]

theorem not_floatOff_floatDirty (sstatus : DWord) : ¬ sstatus.floatDirty.floatOff := by
  intro hoff
  simp [DWord.floatDirty, DWord.floatOff, DWord.setBit] at hoff

theorem floatDirty_floatDirty (sstatus : DWord) : sstatus.floatDirty.floatDirty = sstatus.floatDirty := by
  simp only [DWord.floatDirty, DWord.setBit, if_true]
  ext i hi
  simp only [BitVec.getElem_or]
  grind

theorem execInstr_popFreg (hfs : ¬ (h.csrs .sstatus).floatOff) (f : FReg) (k : Nat)
    : h.execInstr (popFreg f (k * xlenb)) =
        some
          {
            h.setCsr .sstatus (h.csrs .sstatus).floatDirty with
            fregs := Function.update h.fregs f (h.mem.load (Memory.slot (h.reg .sp) k))
          } := by
  simp only [popFreg, execInstr, if_neg hfs, addr_slot]
  rfl

theorem exec_popFregs (h : Hart) (hfs : ¬ (h.csrs .sstatus).floatOff) (p : FReg × Nat)
    (l : List (FReg × Nat))
    : h.exec ((p :: l).map fun p => popFreg p.1 (p.2 * xlenb)) =
        some
          {
            h.setCsr .sstatus (h.csrs .sstatus).floatDirty with
            fregs := h.mem.loadSlots (h.reg .sp) (p :: l) h.fregs
          } := by
  induction l generalizing h p with
  | nil =>
    rw [List.map_cons, exec, execInstr_popFreg hfs]
    rfl
  | cons q l ih =>
    rw [List.map_cons, exec, execInstr_popFreg hfs, Option.bind_some]
    refine (ih _ ?_ q).trans ?_
    . simp only [setCsr, Function.update_self]
      exact not_floatOff_floatDirty _
    . simp only [setCsr, Function.update_self, floatDirty_floatDirty, Function.update_idem]
      rfl

def savedCsrs (h : Hart) : List (Nat × DWord) :=
  [(2, h.csrs .sscratch), (64, h.csrs .sstatus), (65, h.csrs .scause), (66, h.csrs .sie),
    (67, h.csrs .stval), (68, h.csrs .sepc)]

def saveCsrsRegs (h : Hart) : Reg → DWord :=
  let regs := Function.update h.regs .t0 (h.csrs .sscratch)
  let regs := Function.update (Function.update regs .t1 (h.csrs .sstatus)) .t2 (h.csrs .scause)
  let regs := Function.update (Function.update regs .t3 (h.csrs .sie)) .t4 (h.csrs .stval)
  Function.update regs .t5 (h.csrs .sepc)

theorem exec_saveCsrs (h : Hart)
    : h.exec saveCsrsCode =
        some
          {
            h with
            regs := h.saveCsrsRegs
            csrs := Function.update h.csrs .sscratch 0
            mem := h.mem.storeSlots (h.reg .sp) h.savedCsrs
          } :=
  rfl

def restoredCsrs : List (Csr × Nat) := [(.sepc, 68), (.stval, 67), (.sie, 66), (.scause, 65), (.sstatus, 64)]

def restoreCsrsRegs (h : Hart) : Reg → DWord :=
  h.mem.loadSlots (h.reg .sp) [(.t5, 68), (.t4, 67), (.t3, 66), (.t2, 65), (.t1, 64)] h.regs

theorem exec_restoreCsrs (h : Hart)
    : h.exec restoreCsrsCode =
        some
          {
            h with
            regs := h.restoreCsrsRegs
            csrs := h.mem.loadSlots (h.reg .sp) restoredCsrs h.csrs
          } :=
  rfl

def frame (h : Hart) : List (Nat × DWord) :=
  savedRegs.map (fun r => (r.ctorIdx, h.reg r)) ++
    savedFregs.map (fun f => (32 + f.ctorIdx, h.fregs f)) ++ h.savedCsrs

theorem exec_saveRegs (h : Hart)
    : h.exec (savedRegs.map fun r => pushReg r (ctxOffsReg r)) =
        some
          {
            h with
            mem := h.mem.storeSlots (h.reg .sp) (savedRegs.map fun r => (r.ctorIdx, h.reg r))
          } :=
  h.exec_pushRegs (savedRegs.map fun r => (r, r.ctorIdx))

theorem exec_saveFregs (h : Hart) (hfs : ¬ (h.csrs .sstatus).floatOff)
    : h.exec (savedFregs.map fun f => pushFreg f (ctxOffsFreg f)) =
        some
          {
            h with
            mem := h.mem.storeSlots (h.reg .sp) (savedFregs.map fun f => (32 + f.ctorIdx, h.fregs f))
          } :=
  h.exec_pushFregs hfs (savedFregs.map fun f => (f, 32 + f.ctorIdx))

theorem exec_trapFromUserSt (h : Hart) (hfs : ¬ (h.csrs .sstatus).floatOff)
    : h.exec trapFromUserStCode =
        some
          {
            h with
            regs := Function.update h.saveCsrsRegs .t1 (h.csrs .sstatus &&& 1#64 <<< 8)
            csrs := Function.update h.csrs .sscratch 0
            mem := h.mem.storeSlots (h.reg .sp) h.frame
          } := by
  have hfregs (mem : Memory) := exec_saveFregs { h with mem } hfs
  rw [trapFromUserStCode, List.append_assoc, List.append_assoc, exec_append_of_eq (exec_saveRegs h),
    exec_append_of_eq (hfregs _), exec_append_of_eq (exec_saveCsrs _), frame, Memory.storeSlots_append,
    Memory.storeSlots_append]
  rfl

theorem mem_savedRegs {r : Reg} : r ∈ savedRegs ↔ r ≠ .zero ∧ r ≠ .sp := by
  cases r <;> decide

theorem mem_savedFregs (f : FReg) : f ∈ savedFregs := by
  cases f <;> decide

theorem frame_slots (h : Hart)
    : h.frame.map Prod.fst =
        savedRegs.map Reg.ctorIdx ++ savedFregs.map (fun f => 32 + f.ctorIdx) ++
          [2, 64, 65, 66, 67, 68] := rfl

theorem nodup_frame (h : Hart) : (h.frame.map Prod.fst).Nodup := by
  rw [frame_slots]
  decide

theorem frame_lt (h : Hart) : ∀ p ∈ h.frame, p.1 < 69 := by
  have hlt : ∀ k ∈ h.frame.map Prod.fst, k < 69 := by
    rw [frame_slots]
    decide
  exact fun p hp => hlt p.1 (List.mem_map_of_mem hp)

theorem load_frame (h : Hart) (mem : Memory) (base : DWord) {k : Nat} {v : DWord} (hmem : (k, v) ∈ h.frame)
    : (mem.storeSlots base h.frame).load (Memory.slot base k) = v :=
  Memory.load_storeSlots_of_mem (fun p hp => Nat.lt_trans (h.frame_lt p hp) (by decide)) h.nodup_frame hmem

end Hart

/--
The context has the registers of the hart, but for the slot of the register `zero`.
-/
structure Context.Of (ctx : Context) (h : Hart) : Prop where
  regs : ∀ r, r ≠ .zero → ctx.regs r = h.reg r
  fregs : ∀ f, ctx.fregs f = h.fregs f
  sstatus : ctx.sstatus = h.csrs .sstatus
  scause : ctx.scause = h.csrs .scause
  sie : ctx.sie = h.csrs .sie
  stval : ctx.stval = h.csrs .stval
  sepc : ctx.sepc = h.csrs .sepc

namespace Hart

variable {h h' : Hart}

-- While the registers are saved the stack pointer is in `sscratch`.
theorem of_frame (mem : Memory) (base : DWord) (hregs : ∀ r, r ≠ .sp → h.reg r = h'.reg r)
    (hsp : h.csrs .sscratch = h'.reg .sp) (hfregs : h.fregs = h'.fregs)
    (hcsrs : ∀ csr, csr ≠ .sscratch → h.csrs csr = h'.csrs csr)
    : (Context.load (mem.storeSlots base h.frame) base).Of h' := by
  have hcsr {k : Nat} {csr : Csr} (hmem : (k, h.csrs csr) ∈ h.savedCsrs) (hne : csr ≠ .sscratch)
      : (mem.storeSlots base h.frame).load (Memory.slot base k) = h'.csrs csr := by
    rw [← hcsrs csr hne]
    exact h.load_frame mem base (List.mem_append_right _ hmem)
  constructor
  case regs =>
    intro r hzero
    by_cases hr : r = .sp
    . subst hr
      rw [← hsp]
      exact h.load_frame mem base (List.mem_append_right _ List.mem_cons_self)
    . rw [← hregs r hr]
      apply h.load_frame
      apply List.mem_append_left
      apply List.mem_append_left
      exact List.mem_map_of_mem (f := fun r => (r.ctorIdx, h.reg r)) (mem_savedRegs.mpr ⟨hzero, hr⟩)
  case fregs =>
    intro f
    rw [← hfregs]
    apply h.load_frame
    apply List.mem_append_left
    apply List.mem_append_right
    exact List.mem_map_of_mem (f := fun f => (32 + f.ctorIdx, h.fregs f)) (mem_savedFregs f)
  case sstatus => exact hcsr (by simp [savedCsrs]) (by simp)
  case scause => exact hcsr (by simp [savedCsrs]) (by simp)
  case sie => exact hcsr (by simp [savedCsrs]) (by simp)
  case stval => exact hcsr (by simp [savedCsrs]) (by simp)
  case sepc => exact hcsr (by simp [savedCsrs]) (by simp)

theorem exec_restoreFregs (h : Hart) (hfs : ¬ (h.csrs .sstatus).floatOff)
    : h.exec (savedFregs.reverse.map fun f => popFreg f (ctxOffsFreg f)) =
        some
          {
            h.setCsr .sstatus (h.csrs .sstatus).floatDirty with
            fregs := h.mem.loadSlots (h.reg .sp)
              (savedFregs.reverse.map fun f => (f, 32 + f.ctorIdx)) h.fregs
          } :=
  h.exec_popFregs hfs (.ft11, 63) (savedFregs.reverse.tail.map fun f => (f, 32 + f.ctorIdx))

theorem exec_restoreRegs (h : Hart)
    : h.exec (savedRegs.reverse.map fun r => popReg r (ctxOffsReg r)) =
        some
          {
            h with
            regs := h.mem.loadSlots (h.reg .sp) (savedRegs.reverse.map fun r => (r, r.ctorIdx)) h.regs
          } := by
  apply h.exec_popRegs (savedRegs.reverse.map fun r => (r, r.ctorIdx))
  intro p hp
  obtain ⟨r, hr, rfl⟩ := List.mem_map.mp hp
  exact (mem_savedRegs.mp (List.mem_reverse.mp hr)).symm

def restored (h : Hart) : Hart :=
  let base := h.reg .sp
  let regs := h.mem.loadSlots base (savedRegs.reverse.map fun r => (r, r.ctorIdx)) h.restoreCsrsRegs
  let csrs := h.mem.loadSlots base restoredCsrs h.csrs
  {
    h with
    regs := Function.update regs .sp (h.mem.load (Memory.slot base 2))
    fregs := h.mem.loadSlots base (savedFregs.reverse.map fun f => (f, 32 + f.ctorIdx)) h.fregs
    csrs := Function.update csrs .sstatus (DWord.floatDirty (csrs .sstatus))
  }

theorem exec_trapExit (h : Hart) (hfs : ¬ (Context.load h.mem (h.reg .sp)).sstatus.floatOff)
    : h.exec trapExitCode = some h.restored := by
  have hcsrs := h.exec_restoreCsrs
  have hfregs := exec_restoreFregs
    { h with regs := h.restoreCsrsRegs, csrs := h.mem.loadSlots (h.reg .sp) restoredCsrs h.csrs } hfs
  rw [trapExitCode, List.append_assoc, List.append_assoc, exec_append_of_eq hcsrs,
    exec_append_of_eq hfregs, exec_append_of_eq (exec_restoreRegs _)]
  rfl

structure ResumesFrom (h : Hart) (ctx : Context) : Prop where
  pc : h.pc = ctx.sepc
  mode : h.mode = if ctx.sstatus.getLsbD DWord.spp then .supervisor else .user
  regs : ∀ r, r ≠ .zero → h.reg r = ctx.regs r
  fregs : ∀ f, h.fregs f = ctx.fregs f
  sie : h.csrs .sie = ctx.sie
  scause : h.csrs .scause = ctx.scause
  stval : h.csrs .stval = ctx.stval
  sepc : h.csrs .sepc = ctx.sepc
  -- As `sret` leaves it behind.
  sstatus : h.csrs .sstatus =
    ((ctx.sstatus.floatDirty.setBit DWord.sie (ctx.sstatus.getLsbD DWord.spie)).setBit
      DWord.spie true).setBit DWord.spp false

theorem ResumesFrom.congr {mem mem' : Memory} {base : DWord}
    (hload : ∀ k, 0 < k → k < 69 → mem.load (Memory.slot base k) = mem'.load (Memory.slot base k))
    (hresumes : h.ResumesFrom (Context.load mem base))
    : h.ResumesFrom (Context.load mem' base) := by
  have hsstatus : (Context.load mem base).sstatus = (Context.load mem' base).sstatus :=
    hload 64 (by decide) (by decide)
  constructor
  case pc => exact hresumes.pc.trans (hload 68 (by decide) (by decide))
  case mode =>
    rw [← hsstatus]
    exact hresumes.mode
  case regs =>
    intro r hzero
    exact (hresumes.regs r hzero).trans
      (hload _ (Reg.ctorIdx_pos hzero) (Nat.lt_trans r.ctorIdx_lt (by decide)))
  case fregs =>
    intro f
    have hlt := f.ctorIdx_lt
    exact (hresumes.fregs f).trans (hload _ (by omega) (by omega))
  case sie => exact hresumes.sie.trans (hload 66 (by decide) (by decide))
  case scause => exact hresumes.scause.trans (hload 65 (by decide) (by decide))
  case stval => exact hresumes.stval.trans (hload 67 (by decide) (by decide))
  case sepc => exact hresumes.sepc.trans (hload 68 (by decide) (by decide))
  case sstatus =>
    rw [← hsstatus]
    exact hresumes.sstatus

theorem trapExit_resumes (h : Hart) (hfs : ¬ (Context.load h.mem (h.reg .sp)).sstatus.floatOff)
    : ∃ h', h.trapExit = some h' ∧ h'.ResumesFrom (Context.load h.mem (h.reg .sp)) ∧
        h'.csrs .sscratch = h.csrs .sscratch ∧ h'.mem = h.mem := by
  refine ⟨h.restored.sret, ?_, ?_, ?_, rfl⟩
  . rw [trapExit, exec_trapExit h hfs, Option.map_some]
  . constructor
    case pc => rfl
    case regs =>
      intro r hzero
      have hreg : h.restored.sret.reg r = h.restored.regs r := if_neg hzero
      rw [hreg]
      by_cases hr : r = .sp
      . subst hr
        rfl
      . have hmem : (r, r.ctorIdx) ∈ savedRegs.reverse.map fun r => (r, r.ctorIdx) :=
          List.mem_map_of_mem (List.mem_reverse.mpr (mem_savedRegs.mpr ⟨hzero, hr⟩))
        simp only [restored, Function.update_of_ne hr]
        exact Memory.loadSlots_of_mem (by decide) hmem
    case fregs =>
      intro f
      have hmem : (f, 32 + f.ctorIdx) ∈ savedFregs.reverse.map fun f => (f, 32 + f.ctorIdx) :=
        List.mem_map_of_mem (List.mem_reverse.mpr (mem_savedFregs f))
      exact Memory.loadSlots_of_mem (by decide) hmem
    case mode =>
      have hspp := getLsbD_floatDirty (Context.load h.mem (h.reg .sp)).sstatus (i := DWord.spp) (by decide)
      rw [← hspp]
      rfl
    case sstatus =>
      have hspie := getLsbD_floatDirty (Context.load h.mem (h.reg .sp)).sstatus (i := DWord.spie) (by decide)
      rw [← hspie]
      rfl
    case sie => rfl
    case scause => rfl
    case stval => rfl
    case sepc => rfl
  . rfl

end Hart

end Jrinx
