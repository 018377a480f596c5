import Jrinx.Trap.RoundTrip

/-!
This module contains the setup of a `Context` for a user program from `trap/src/arch/riscv/mod.rs`, and what
is left of the kernel's interrupt configuration after the program has run.
-/

namespace Jrinx

-- The supervisor may access the pages of user programs.
def DWord.sum : Nat := 18

namespace Context

def enableInt (ctx : Context) : Context := { ctx with sie := 1 <<< 9 ||| 1 <<< 5 ||| 1 <<< 1 }

def disableInt (ctx : Context) : Context := { ctx with sie := 0 }

-- `FS::Initial` is 1 and `SPP::User` is 0.
def userSetup (ctx : Context) (entryPoint stackTop : DWord) : Context :=
  enableInt
    {
      ctx with
      regs := Function.update ctx.regs .sp stackTop
      sstatus := 1 <<< 18 ||| 1 <<< 13 ||| 0 <<< 8 ||| 1 <<< 5
      sepc := entryPoint
    }

inductive IntCall where
  | enableInt
  | disableInt
  deriving DecidableEq, Repr

def intCall (ctx : Context) (call : IntCall) : Context :=
  match call with
  | .enableInt => ctx.enableInt
  | .disableInt => ctx.disableInt

-- After `user_setup` interrupts may be enabled and disabled any number of times.
def prepare (ctx : Context) (entryPoint stackTop : DWord) (calls : List IntCall) : Context :=
  calls.foldl intCall (ctx.userSetup entryPoint stackTop)

theorem sstatus_intCall (ctx : Context) (call : IntCall) : (ctx.intCall call).sstatus = ctx.sstatus := by
  cases call <;> rfl

theorem sstatus_prepare (ctx : Context) (entryPoint stackTop : DWord) (calls : List IntCall)
    : (ctx.prepare entryPoint stackTop calls).sstatus = 0x42020 := by
  have hfoldl (ctx : Context) : (calls.foldl intCall ctx).sstatus = ctx.sstatus := by
    induction calls generalizing ctx with
    | nil => rfl
    | cons call calls ih => rw [List.foldl_cons, ih, sstatus_intCall]
  exact hfoldl _

theorem sie_prepare (ctx : Context) (entryPoint stackTop : DWord) (calls : List IntCall)
    : (ctx.prepare entryPoint stackTop calls).sie =
        if calls.getLast? = some .disableInt then 0 else 0x222 := by
  rcases List.eq_nil_or_concat calls with rfl | ⟨calls, call, rfl⟩
  . rfl
  . rw [prepare, List.concat_eq_append, List.foldl_append, List.getLast?_concat]
    cases call <;> rfl

theorem userSetup_self {ctx : Context} (hsstatus : ctx.sstatus = 0x42020) (hsie : ctx.sie = 0x222)
    : ctx.userSetup ctx.sepc (ctx.regs .sp) = ctx := by
  obtain ⟨regs, fregs, sstatus, scause, sie, stval, sepc⟩ := ctx
  subst hsstatus hsie
  simp [userSetup, enableInt]

end Context

namespace Hart

variable {h h' : Hart} {handler link : DWord}

-- The interrupts that are enabled, and the access to user pages, are as in `h`.
structure SameConfig (h h' : Hart) : Prop where
  sie : h'.csrs .sie = h.csrs .sie
  interruptEnable : (h'.csrs .sstatus).getLsbD DWord.sie = (h.csrs .sstatus).getLsbD DWord.sie
  userAccess : (h'.csrs .sstatus).getLsbD DWord.sum = (h.csrs .sstatus).getLsbD DWord.sum

def RunPreservesConfig (handler link : DWord) (h : Hart) : Prop :=
  ∃ h₁, h.runUser = some h₁ ∧
    ∀ h₂ cause tval, UserRuns h h₁ h₂ → ∃ h₃,
      (h₂.trap cause tval).trapEntry handler link = some h₃ ∧ ReturnsFrom h h₃ ∧ SameConfig h h₃

theorem getLsbD_trap_sie (h : Hart) (cause tval : DWord)
    : ((h.trap cause tval).csrs .sstatus).getLsbD DWord.sie = false := by
  simp only [trap, setCsr, Function.update_self]
  rw [getLsbD_setBit _ (by decide), if_neg (by decide), getLsbD_setBit _ (by decide), if_pos rfl]

theorem getLsbD_trap_sum (h : Hart) (cause tval : DWord)
    : ((h.trap cause tval).csrs .sstatus).getLsbD DWord.sum = (h.csrs .sstatus).getLsbD DWord.sum := by
  simp only [trap, setCsr, Function.update_self]
  rw [getLsbD_setBit _ (by decide), if_neg (by decide), getLsbD_setBit _ (by decide), if_neg (by decide),
    getLsbD_setBit _ (by decide), if_neg (by decide)]

theorem ResumesFrom.getLsbD_sum {ctx : Context} (hresumes : h.ResumesFrom ctx)
    : (h.csrs .sstatus).getLsbD DWord.sum = ctx.sstatus.getLsbD DWord.sum := by
  rw [hresumes.sstatus, getLsbD_setBit _ (by decide), if_neg (by decide), getLsbD_setBit _ (by decide),
    if_neg (by decide), getLsbD_setBit _ (by decide), if_neg (by decide), getLsbD_floatDirty _ (by decide)]

-- After the user program interrupts are off, and what else is enabled is what the context says.
structure LeavesConfig (ctx : Context) (h : Hart) : Prop where
  sie : h.csrs .sie = ctx.sie
  interruptEnable : (h.csrs .sstatus).getLsbD DWord.sie = false
  userAccess : (h.csrs .sstatus).getLsbD DWord.sum = ctx.sstatus.getLsbD DWord.sum

theorem runUser_leavesConfig (handler link : DWord) (hnull : h.reg .a0 ≠ 0) (hapart : h.ContextApart)
    (hfs : ¬ (Context.load h.mem (h.reg .a0)).sstatus.floatOff)
    : ∃ h₁, h.runUser = some h₁ ∧ h₁.ResumesFrom (Context.load h.mem (h.reg .a0)) ∧
        ∀ h₂ cause tval, UserRuns h h₁ h₂ → ∃ h₃,
          (h₂.trap cause tval).trapEntry handler link = some h₃ ∧ ReturnsFrom h h₃ ∧
            LeavesConfig (Context.load h.mem (h.reg .a0)) h₃ := by
  obtain ⟨h₁, hrun, hresumes, hscratch, hmem⟩ := runUser_resumes hapart hfs
  have hparked : h.KernelParked h₁.mem := by
    rw [hmem]
    exact kernelParked_entering hapart
  refine ⟨h₁, hrun, hresumes, ?_⟩
  intro h₂ cause tval huser
  obtain ⟨h₃, hentry, hreturns, _, hcsrs⟩ :=
    returnsFrom_of_user hnull hapart hresumes hscratch hparked huser handler link cause tval
  refine ⟨h₃, hentry, hreturns, ?_⟩
  constructor
  case sie =>
    have hsie : (h₂.trap cause tval).csrs .sie = h₂.csrs .sie := rfl
    rw [hcsrs .sie (by decide), hsie, huser.csrs, hresumes.sie]
  case interruptEnable => rw [hcsrs .sstatus (by decide), getLsbD_trap_sie]
  case userAccess =>
    rw [hcsrs .sstatus (by decide), getLsbD_trap_sum, huser.csrs, hresumes.getLsbD_sum]

theorem LeavesConfig.sameConfig_iff {ctx : Context} {entryPoint stackTop : DWord}
    {calls : List Context.IntCall} (hleaves : LeavesConfig (ctx.prepare entryPoint stackTop calls) h')
    : SameConfig h h' ↔
        (h.csrs .sie = if calls.getLast? = some .disableInt then 0 else 0x222) ∧
          (h.csrs .sstatus).getLsbD DWord.sie = false ∧ (h.csrs .sstatus).getLsbD DWord.sum = true := by
  obtain ⟨hsie, hinterrupt, huser⟩ := hleaves
  rw [ctx.sie_prepare] at hsie
  have hsum : (0x42020 : DWord).getLsbD DWord.sum = true := by decide
  rw [ctx.sstatus_prepare, hsum] at huser
  constructor
  . intro hsame
    exact ⟨hsame.sie.symm.trans hsie, hsame.interruptEnable.symm.trans hinterrupt,
      hsame.userAccess.symm.trans huser⟩
  . intro ⟨hsie', hinterrupt', huser'⟩
    exact ⟨hsie.trans hsie'.symm, hinterrupt.trans hinterrupt'.symm, huser.trans huser'.symm⟩

theorem userRuns_self {ctx : Context} (hresumes : h'.ResumesFrom ctx)
    (hspp : ctx.sstatus.getLsbD DWord.spp = false)
    : UserRuns h h' h' := by
  have hmode : h'.mode = .user := by
    rw [hresumes.mode, hspp]
    rfl
  exact ⟨hmode, hmode, rfl, fun _ _ => rfl, fun _ _ => rfl⟩

theorem RunPreservesConfig.of_leavesConfig (hpreserves : h.RunPreservesConfig handler link)
    (hnull : h.reg .a0 ≠ 0) (hapart : h.ContextApart)
    (hsstatus : (Context.load h.mem (h.reg .a0)).sstatus = 0x42020)
    : ∃ h', LeavesConfig (Context.load h.mem (h.reg .a0)) h' ∧ SameConfig h h' := by
  have hfs : ¬ (Context.load h.mem (h.reg .a0)).sstatus.floatOff := by
    rw [hsstatus]
    decide
  obtain ⟨h₁, hrun, hresumes, hleaves⟩ := runUser_leavesConfig handler link hnull hapart hfs
  obtain ⟨h₁', hrun', hpreserves⟩ := hpreserves
  cases hrun.symm.trans hrun'
  have huser : UserRuns h h₁ h₁ := by
    apply userRuns_self hresumes
    rw [hsstatus]
    decide
  obtain ⟨h₃, hentry, _, hleaves⟩ := hleaves h₁ 0 0 huser
  obtain ⟨h₃', hentry', _, hsame⟩ := hpreserves h₁ 0 0 huser
  cases hentry.symm.trans hentry'
  exact ⟨h₃, hleaves, hsame⟩

/--
The configuration of the context stays behind, so it is preserved if and only if it is the one of the caller.
-/
theorem runPreservesConfig_iff (handler link : DWord) (ctx : Context) (entryPoint stackTop : DWord)
    (calls : List Context.IntCall)
    (hctx : Context.load h.mem (h.reg .a0) = ctx.prepare entryPoint stackTop calls)
    (hnull : h.reg .a0 ≠ 0) (hapart : h.ContextApart)
    : h.RunPreservesConfig handler link ↔
        (h.csrs .sie = if calls.getLast? = some .disableInt then 0 else 0x222) ∧
          (h.csrs .sstatus).getLsbD DWord.sie = false ∧ (h.csrs .sstatus).getLsbD DWord.sum = true := by
  have hsstatus : (Context.load h.mem (h.reg .a0)).sstatus = 0x42020 := by
    rw [hctx, ctx.sstatus_prepare]
  constructor
  . intro hpreserves
    obtain ⟨h', hleaves, hsame⟩ := hpreserves.of_leavesConfig hnull hapart hsstatus
    rw [hctx] at hleaves
    exact hleaves.sameConfig_iff.mp hsame
  . intro hconfig
    have hfs : ¬ (Context.load h.mem (h.reg .a0)).sstatus.floatOff := by
      rw [hsstatus]
      decide
    obtain ⟨h₁, hrun, _, hleaves⟩ := runUser_leavesConfig handler link hnull hapart hfs
    rw [hctx] at hleaves
    refine ⟨h₁, hrun, ?_⟩
    intro h₂ cause tval huser
    obtain ⟨h₃, hentry, hreturns, hleaves⟩ := hleaves h₂ cause tval huser
    exact ⟨h₃, hentry, hreturns, hleaves.sameConfig_iff.mpr hconfig⟩

-- A call with a context as `user_setup` leaves it, and with all interrupts enabled in `sie`.
def callsUserAt (sstatus : DWord) : Hart :=
  {
    callsUser with
    csrs := fun csr => if csr = .sstatus then sstatus else if csr = .sie then 0x222 else 0
    mem := callsUser.mem.store (Memory.slot (callsUser.reg .a0) 66) 0x222
  }

def callsUserAtContext (sstatus : DWord) : Context :=
  Context.load (callsUserAt sstatus).mem (callsUser.reg .a0)

theorem sstatus_callsUserAtContext (sstatus : DWord) : (callsUserAtContext sstatus).sstatus = 0x42020 := by
  rw [← sstatus_callsUser]
  exact Memory.load_slot_store_slot (by decide) (by decide) (by decide)

theorem sie_callsUserAtContext (sstatus : DWord) : (callsUserAtContext sstatus).sie = 0x222 := by
  exact Memory.load_store_self

theorem prepare_callsUserAtContext (sstatus : DWord)
    : callsUserAtContext sstatus =
        (callsUserAtContext sstatus).prepare (callsUserAtContext sstatus).sepc
          ((callsUserAtContext sstatus).regs .sp) [] :=
  (Context.userSetup_self (sstatus_callsUserAtContext sstatus) (sie_callsUserAtContext sstatus)).symm

theorem contextApart_callsUserAt (sstatus : DWord) : (callsUserAt sstatus).ContextApart :=
  contextApart_callsUser

theorem runPreservesConfig_callsUserAt : (callsUserAt 0x46000).RunPreservesConfig 0x80200000 0x80100000 := by
  apply (runPreservesConfig_iff _ _ _ _ _ _ (prepare_callsUserAtContext _) ?_ (contextApart_callsUserAt _)).mpr
  . exact ⟨rfl, by decide, by decide⟩
  . decide

-- Interrupts were on before the call and are off after it.
theorem not_runPreservesConfig
    : ¬ ∀ (h : Hart) (ctx : Context) (entryPoint stackTop : DWord) (calls : List Context.IntCall),
        Context.load h.mem (h.reg .a0) = ctx.prepare entryPoint stackTop calls → h.reg .a0 ≠ 0 →
          h.ContextApart → h.RunPreservesConfig 0x80200000 0x80100000 := by
  intro hall
  have hnull : (callsUserAt 0x46002).reg .a0 ≠ 0 := by decide
  have hpreserves := hall _ _ _ _ _ (prepare_callsUserAtContext 0x46002) hnull (contextApart_callsUserAt _)
  obtain ⟨h', hleaves, hsame⟩ :=
    hpreserves.of_leavesConfig hnull (contextApart_callsUserAt _) (sstatus_callsUserAtContext 0x46002)
  have hinterrupt := hsame.interruptEnable.symm.trans hleaves.interruptEnable
  revert hinterrupt
  decide

end Hart

end Jrinx
