import Jrinx.Util.Memory

/-!
This module contains the part of the RISC-V machine that `trap/src/arch/riscv/entry.rs` is written for: the
registers, some instructions of RV64, and how a trap is taken and returned from. The registers for control
and status hold what is written to them.
-/

namespace Jrinx

abbrev DWord := BitVec 64

-- In the order of the fields of `Register`.
inductive Reg where
  | zero | ra | sp | gp | tp | t0 | t1 | t2 | s0 | s1 | a0 | a1 | a2 | a3 | a4 | a5 | a6 | a7
  | s2 | s3 | s4 | s5 | s6 | s7 | s8 | s9 | s10 | s11 | t3 | t4 | t5 | t6
  deriving DecidableEq, Repr

-- In the order of the fields of `FRegister`.
inductive FReg where
  | ft0 | ft1 | ft2 | ft3 | ft4 | ft5 | ft6 | ft7 | fs0 | fs1 | fa0 | fa1 | fa2 | fa3 | fa4 | fa5 | fa6 | fa7
  | fs2 | fs3 | fs4 | fs5 | fs6 | fs7 | fs8 | fs9 | fs10 | fs11 | ft8 | ft9 | ft10 | ft11
  deriving DecidableEq, Repr

inductive Csr where
  | sstatus | scause | sie | stval | sepc | sscratch
  deriving DecidableEq, Repr

inductive PrivMode where
  | user
  | supervisor
  deriving DecidableEq, Repr

structure Hart where
  regs : Reg → DWord
  fregs : FReg → DWord
  csrs : Csr → DWord
  mem : Memory
  mode : PrivMode
  pc : DWord

inductive Instr where
  | csrrw (rd : Reg) (csr : Csr) (rs : Reg)
  | csrr (rd : Reg) (csr : Csr)
  | csrw (csr : Csr) (rs : Reg)
  | addi (rd rs : Reg) (imm : DWord)
  | andi (rd rs : Reg) (imm : DWord)
  | mv (rd rs : Reg)
  | ld (rd : Reg) (offset : Nat) (rs : Reg)
  | sd (rd : Reg) (offset : Nat) (rs : Reg)
  | fld (fd : FReg) (offset : Nat) (rs : Reg)
  | fsd (fd : FReg) (offset : Nat) (rs : Reg)

namespace DWord

def setBit (w : DWord) (i : Nat) (b : Bool) : DWord :=
  if b then w ||| 1#64 <<< i else w &&& ~~~(1#64 <<< i)

-- The bits of `sstatus`.
def sie : Nat := 1

def spie : Nat := 5

def spp : Nat := 8

def floatOff (sstatus : DWord) : Prop := sstatus.getLsbD 13 = false ∧ sstatus.getLsbD 14 = false

instance (sstatus : DWord) : Decidable (floatOff sstatus) := inferInstanceAs (Decidable (_ ∧ _))

def floatDirty (sstatus : DWord) : DWord := (sstatus.setBit 13 true).setBit 14 true

end DWord

namespace Hart

def reg (h : Hart) (r : Reg) : DWord := if r = .zero then 0 else h.regs r

def setReg (h : Hart) (r : Reg) (v : DWord) : Hart :=
  if r = .zero then h else { h with regs := Function.update h.regs r v }

def setCsr (h : Hart) (csr : Csr) (v : DWord) : Hart :=
  { h with csrs := Function.update h.csrs csr v }

def addr (h : Hart) (rs : Reg) (offset : Nat) : DWord := h.reg rs + BitVec.ofNat 64 offset

-- There is no result for an instruction that is not legal.
def execInstr (h : Hart) (i : Instr) : Option Hart :=
  match i with
  | .csrrw rd csr rs => some ((h.setCsr csr (h.reg rs)).setReg rd (h.csrs csr))
  | .csrr rd csr => some (h.setReg rd (h.csrs csr))
  | .csrw csr rs => some (h.setCsr csr (h.reg rs))
  | .addi rd rs imm => some (h.setReg rd (h.reg rs + imm))
  | .andi rd rs imm => some (h.setReg rd (h.reg rs &&& imm))
  | .mv rd rs => some (h.setReg rd (h.reg rs))
  | .ld rd offset rs => some (h.setReg rd (h.mem.load (h.addr rs offset)))
  | .sd rd offset rs => some { h with mem := h.mem.store (h.addr rs offset) (h.reg rd) }
  | .fld fd offset rs =>
    if (h.csrs .sstatus).floatOff then
      none
    else
      let h := h.setCsr .sstatus (h.csrs .sstatus).floatDirty
      some { h with fregs := Function.update h.fregs fd (h.mem.load (h.addr rs offset)) }
  | .fsd fd offset rs =>
    if (h.csrs .sstatus).floatOff then
      none
    else
      some { h with mem := h.mem.store (h.addr rs offset) (h.fregs fd) }

def exec (h : Hart) (code : List Instr) : Option Hart :=
  match code with
  | [] => some h
  | i :: code => (h.execInstr i).bind fun h => h.exec code

def trap (h : Hart) (cause tval : DWord) : Hart :=
  let sstatus := h.csrs .sstatus
  let sstatus := (sstatus.setBit DWord.spie (sstatus.getLsbD DWord.sie)).setBit DWord.sie false
  let sstatus := sstatus.setBit DWord.spp (h.mode = .supervisor)
  let h := (h.setCsr .scause cause).setCsr .stval tval
  { (h.setCsr .sepc h.pc).setCsr .sstatus sstatus with mode := .supervisor }

def sret (h : Hart) : Hart :=
  let sstatus := h.csrs .sstatus
  let mode := if sstatus.getLsbD DWord.spp then .supervisor else .user
  let sstatus := (sstatus.setBit DWord.sie (sstatus.getLsbD DWord.spie)).setBit DWord.spie true
  { h.setCsr .sstatus (sstatus.setBit DWord.spp false) with mode, pc := h.csrs .sepc }

def ret (h : Hart) : Hart := { h with pc := h.reg .ra }

-- `link` is the address after the call.
def call (h : Hart) (target link : DWord) : Hart := { h.setReg .ra link with pc := target }

end Hart

end Jrinx
