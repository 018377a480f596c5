import Jrinx.Trap.UserContext

/-!
This module contains the runs of `run_user` of `trap/src/arch/riscv/entry.rs` with interrupts between its
instructions.
-/

namespace Jrinx

-- The interrupts that `enable_int` enables.
inductive SupervisorInt where
  | soft
  | timer
  | external
  deriving DecidableEq, Repr

namespace SupervisorInt

-- Its bit in `sie`.
def code (int : SupervisorInt) : Nat :=
  match int with
  | .soft => 1
  | .timer => 5
  | .external => 9

def cause (int : SupervisorInt) : DWord := 1 <<< 63 ||| BitVec.ofNat 64 int.code

end SupervisorInt

namespace Hart

-- `run_user` goes on with `trap_exit`, up to the `sret`.
def enterCode : List Instr := runUserCode ++ trapExitCode

end Hart

/--
Where the instructions and the handler of the kernel are, and how much of the stack the handler uses.
-/
structure KernelImage where
  -- The addresses of the instructions of `run_user` and of the `sret` behind them.
  place : Nat → DWord
  place_inj : ∀ j ≤ Hart.enterCode.length, ∀ k ≤ Hart.enterCode.length, place j = place k → j = k
  handler : DWord
  link : DWord
  depth : Nat

namespace KernelImage

def position (image : KernelImage) (pc : DWord) : Option Nat :=
  (List.range (Hart.enterCode.length + 1)).find? fun j => image.place j = pc

theorem position_place (image : KernelImage) {j : Nat} (hj : j ≤ Hart.enterCode.length)
    : image.position (image.place j) = some j := by
  simp only [position, List.find?_range_eq_some, List.mem_range, decide_eq_true_eq, true_and]
  refine ⟨Nat.lt_succ_of_le hj, ?_⟩
  intro k hk
  simp only [Bool.not_eq_true', decide_eq_false_iff_not]
  intro hplace
  have hkj := image.place_inj k (by omega) j hj hplace
  omega

end KernelImage

namespace Hart

variable {image : KernelImage} {h h' s s' : Hart} {j : Nat}

-- The rest of `run_user` without interrupts, from where the hart is.
def goOn (image : KernelImage) (s : Hart) : Option Hart :=
  (image.position s.pc).bind fun j => (s.exec (enterCode.drop j)).map sret

def TakesInterrupt (s : Hart) (int : SupervisorInt) : Prop :=
  s.mode = .supervisor ∧ (s.csrs .sstatus).getLsbD DWord.sie = true ∧ (s.csrs .sie).getLsbD int.code = true

/--
The handler of an interrupt that was taken during the call of `run_user` in `h` has returned. It writes to
the context and to the frame of `run_user` only where its own stack lies over them.
-/
structure InterruptReturns (image : KernelImage) (h h₁ h₂ : Hart) : Prop extends HandlerReturns h₁ h₂ where
  -- No interrupt is taken on the way out.
  interruptEnable : (h₂.csrs .sstatus).getLsbD DWord.sie = false
  mem : ∀ b, Memory.Span (h.reg .a0) ctxSize b ∨ Memory.Span h.userFrame (15 * xlenb) b →
    ¬ Memory.Below (h₁.reg .sp) image.depth b → h₂.mem b = h₁.mem b

-- The runs of the call of `run_user` in `h`, with interrupts at any of the allowed boundaries.
inductive Enters (image : KernelImage) (allowed : Nat → Prop) (h : Hart) : Hart → Prop where
  | call : Enters image allowed h h
  | instr {s s' : Hart} {j : Nat} {i : Instr} (henters : Enters image allowed h s)
    (hpc : s.pc = image.place j) (hinstr : enterCode[j]? = some i) (hexec : s.execInstr i = some s')
    : Enters image allowed h { s' with pc := image.place (j + 1) }
  | interrupt {s h₁ h₂ s' : Hart} {j : Nat} {int : SupervisorInt} {tval : DWord}
    (henters : Enters image allowed h s) (hpc : s.pc = image.place j) (hj : j ≤ enterCode.length)
    (hallowed : allowed j) (htakes : s.TakesInterrupt int)
    (hentry : (s.trap int.cause tval).trapEntry image.handler image.link = some h₁)
    (hreturns : InterruptReturns image h h₁ h₂) (hexit : h₂.trapExit = some s')
    : Enters image allowed h s'

-- Without further interrupts the user mode is entered, and the next trap makes `run_user` return.
def GetsToUser (image : KernelImage) (h s : Hart) : Prop :=
  ∃ h₁, s.goOn image = some h₁ ∧ h₁.mode = .user ∧ h₁.ResumesFrom (Context.load h.mem (h.reg .a0)) ∧
    ∀ h₂ cause tval, UserRuns h h₁ h₂ → ∃ h₃,
      (h₂.trap cause tval).trapEntry image.handler image.link = some h₃ ∧ ReturnsFrom h h₃

def GoesOnAfter (image : KernelImage) (h s : Hart) (int : SupervisorInt) (tval : DWord) : Prop :=
  ∃ h₁, (s.trap int.cause tval).trapEntry image.handler image.link = some h₁ ∧ h₁.pc = image.handler ∧
    h₁.reg .ra = image.link ∧
    ∀ h₂, InterruptReturns image h h₁ h₂ → ∃ s', h₂.trapExit = some s' ∧ GetsToUser image h s'

/--
In all runs with interrupts at the allowed boundaries only the call gets to the user program and back.
-/
def ToleratesInterrupts (image : KernelImage) (allowed : Nat → Prop) (h : Hart) : Prop :=
  ∀ s, Enters image allowed h s → GetsToUser image h s ∧
    ∀ j int tval, s.pc = image.place j → j ≤ enterCode.length → allowed j → s.TakesInterrupt int →
      GoesOnAfter image h s int tval

-- A call of `run_user` from the kernel with the context of a user program. There is room on the stack.
structure CallsRunUser (image : KernelImage) (h : Hart) : Prop where
  pc : h.pc = image.place 0
  mode : h.mode = .supervisor
  sscratch : h.csrs .sscratch = 0
  floatOn : ¬ (h.csrs .sstatus).floatOff
  null : h.reg .a0 ≠ 0
  stack : ∀ b, Memory.Span (h.reg .a0) ctxSize b →
    ¬ Memory.Below (h.reg .sp) (15 * xlenb + (ctxSize + image.depth)) b
  user : (Context.load h.mem (h.reg .a0)).sstatus.getLsbD DWord.spp = false
  userFloatOn : ¬ (Context.load h.mem (h.reg .a0)).sstatus.floatOff

/--
Before boundary 18 the register `sp` points into the kernel stack. At the two boundaries from there on it has
the address of the context already, and what a trap stores below it must not meet the frame of `run_user`.
-/
def SafeBoundary (image : KernelImage) (h : Hart) (j : Nat) : Prop :=
  j < 18 ∨ j < 20 ∧ ∀ b, Memory.Span h.userFrame (15 * xlenb) b →
    ¬ Memory.Below (h.reg .a0) (ctxSize + image.depth) b

theorem SafeBoundary.lt (hsafe : SafeBoundary image h j) : j < 20 := by
  rcases hsafe with hj | ⟨hj, _⟩
  . omega
  . exact hj

theorem length_enterCode : enterCode.length = 93 := rfl

theorem exec_drop {i : Instr} (hinstr : enterCode[j]? = some i) (s : Hart)
    : s.exec (enterCode.drop j) = (s.execInstr i).bind fun s => s.exec (enterCode.drop (j + 1)) := by
  obtain ⟨hj, hi⟩ := List.getElem?_eq_some_iff.mp hinstr
  rw [List.drop_eq_getElem_cons hj, hi, exec]

theorem execInstr_pc (s : Hart) (pc : DWord) (i : Instr)
    : { s with pc }.execInstr i = (s.execInstr i).map fun s => { s with pc } := by
  have hsetReg (s : Hart) (r : Reg) (v : DWord) : { s with pc }.setReg r v = { s.setReg r v with pc } := by
    unfold setReg
    split <;> rfl
  cases i with
  | fld fd offset rs =>
    simp only [execInstr]
    split <;> rfl
  | fsd fd offset rs =>
    simp only [execInstr]
    split <;> rfl
  | sd => rfl
  | csrw => rfl
  | csrrw rd csr rs => exact congrArg some (hsetReg (s.setCsr csr (s.reg rs)) rd _)
  | _ => exact congrArg some (hsetReg s _ _)

theorem exec_pc (s : Hart) (pc : DWord) (code : List Instr)
    : { s with pc }.exec code = (s.exec code).map fun s => { s with pc } := by
  induction code generalizing s with
  | nil => rfl
  | cons i code ih =>
    rw [exec, exec, execInstr_pc]
    cases s.execInstr i with
    | none => rfl
    | some s' => exact ih s'

theorem goOn_of_place (hpc : s.pc = image.place j) (hj : j ≤ enterCode.length)
    : s.goOn image = (s.exec (enterCode.drop j)).map sret := by
  rw [goOn, hpc, image.position_place hj, Option.bind_some]

theorem goOn_instr {i : Instr} (hpc : s.pc = image.place j) (hinstr : enterCode[j]? = some i)
    (hexec : s.execInstr i = some s')
    : { s' with pc := image.place (j + 1) }.goOn image = s.goOn image := by
  obtain ⟨hj, _⟩ := List.getElem?_eq_some_iff.mp hinstr
  rw [goOn_of_place rfl hj, goOn_of_place hpc (Nat.le_of_lt hj), exec_drop hinstr, hexec, Option.bind_some,
    exec_pc, Option.map_map]
  rfl

end Hart

end Jrinx
