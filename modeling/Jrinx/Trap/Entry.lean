import Jrinx.Trap.Riscv

/-!
This module contains the code of `trap/src/arch/riscv/entry.rs` for riscv64. The code from one label to the
next branch is a list of instructions, a label is a function.
-/

namespace Jrinx

namespace Hart

def xlenb : Nat := 8

-- The offsets into a `Context`.
def ctxOffsReg (r : Reg) : Nat := r.ctorIdx * xlenb

def ctxOffsFreg (f : FReg) : Nat := (32 + f.ctorIdx) * xlenb

def ctxOffsSstatus : Nat := 64 * xlenb

def ctxOffsScause : Nat := 65 * xlenb

def ctxOffsSie : Nat := 66 * xlenb

def ctxOffsStval : Nat := 67 * xlenb

def ctxOffsSepc : Nat := 68 * xlenb

def ctxSize : Nat := 69 * xlenb

def pushReg (r : Reg) (offset : Nat) : Instr := .sd r offset .sp

def popReg (r : Reg) (offset : Nat) : Instr := .ld r offset .sp

def pushFreg (f : FReg) (offset : Nat) : Instr := .fsd f offset .sp

def popFreg (f : FReg) (offset : Nat) : Instr := .fld f offset .sp

-- In the order in which they are saved, and restored in the opposite order.
def savedRegs : List Reg :=
  [.ra, .gp, .tp, .t0, .t1, .t2, .s0, .s1, .a0, .a1, .a2, .a3, .a4, .a5, .a6, .a7,
    .s2, .s3, .s4, .s5, .s6, .s7, .s8, .s9, .s10, .s11, .t3, .t4, .t5, .t6]

def savedFregs : List FReg :=
  [.ft0, .ft1, .ft2, .ft3, .ft4, .ft5, .ft6, .ft7, .fs0, .fs1, .fa0, .fa1, .fa2, .fa3, .fa4, .fa5, .fa6,
    .fa7, .fs2, .fs3, .fs4, .fs5, .fs6, .fs7, .fs8, .fs9, .fs10, .fs11, .ft8, .ft9, .ft10, .ft11]

def kernelRegs : List (Reg × Nat) :=
  [(.s0, 0), (.s1, 1), (.s2, 2), (.s3, 3), (.s4, 4), (.s5, 5), (.s6, 6), (.s7, 7), (.s8, 8), (.s9, 9),
    (.s10, 10), (.s11, 11), (.ra, 12), (.gp, 13), (.tp, 14)]

def saveCsrsCode : List Instr :=
  [.csrrw .t0 .sscratch .zero, pushReg .t0 (ctxOffsReg .sp),
    .csrr .t1 .sstatus, pushReg .t1 ctxOffsSstatus,
    .csrr .t2 .scause, pushReg .t2 ctxOffsScause,
    .csrr .t3 .sie, pushReg .t3 ctxOffsSie,
    .csrr .t4 .stval, pushReg .t4 ctxOffsStval,
    .csrr .t5 .sepc, pushReg .t5 ctxOffsSepc]

def trapFromUserStCode : List Instr :=
  savedRegs.map (fun r => pushReg r (ctxOffsReg r)) ++
    savedFregs.map (fun f => pushFreg f (ctxOffsFreg f)) ++ saveCsrsCode ++ [.andi .t1 .t1 (1#64 <<< 8)]

def trapFromUserEdCode : List Instr :=
  [popReg .sp 0] ++ kernelRegs.map (fun p => popReg p.1 (p.2 * xlenb)) ++
    [.addi .sp .sp (BitVec.ofNat 64 (15 * xlenb))]

def runUserCode : List Instr :=
  [.addi .sp .sp (-BitVec.ofNat 64 (15 * xlenb))] ++
    kernelRegs.reverse.map (fun p => pushReg p.1 (p.2 * xlenb)) ++
    [.mv .t0 .sp, .mv .sp .a0, pushReg .t0 0, .csrw .sscratch .sp]

def restoreCsrsCode : List Instr :=
  [popReg .t5 ctxOffsSepc, .csrw .sepc .t5,
    popReg .t4 ctxOffsStval, .csrw .stval .t4,
    popReg .t3 ctxOffsSie, .csrw .sie .t3,
    popReg .t2 ctxOffsScause, .csrw .scause .t2,
    popReg .t1 ctxOffsSstatus, .csrw .sstatus .t1]

def trapExitCode : List Instr :=
  restoreCsrsCode ++ savedFregs.reverse.map (fun f => popFreg f (ctxOffsFreg f)) ++
    savedRegs.reverse.map (fun r => popReg r (ctxOffsReg r)) ++ [popReg .sp (ctxOffsReg .sp)]

def trapExit (h : Hart) : Option Hart := (h.exec trapExitCode).map sret

def runUser (h : Hart) : Option Hart := (h.exec runUserCode).bind trapExit

def trapFromUserEd (h : Hart) : Option Hart := (h.exec trapFromUserEdCode).map ret

section

-- The addresses of `handle_kern_trap` and of the jump after the call of it.
variable (handler link : DWord)

def trapFromKernEd (h : Hart) : Option Hart := (h.exec [.mv .a0 .sp]).map fun h => h.call handler link

def trapFromUserSt (h : Hart) : Option Hart :=
  (h.exec trapFromUserStCode).bind fun h =>
    if h.reg .t1 = 0 then h.trapFromUserEd else h.trapFromKernEd handler link

def trapFromKernSt (h : Hart) : Option Hart :=
  (h.exec [.csrr .sp .sscratch, .addi .sp .sp (-BitVec.ofNat 64 ctxSize)]).bind
    fun h => h.trapFromUserSt handler link

def trapEntry (h : Hart) : Option Hart :=
  (h.exec [.csrrw .sp .sscratch .sp]).bind fun h =>
    if h.reg .sp ≠ 0 then h.trapFromUserSt handler link else h.trapFromKernSt handler link

end

end Hart

end Jrinx
