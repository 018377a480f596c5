import Jrinx.Trap.SaveRestore
import Jrinx.Util.Outcome

/-!
This module contains the switching between executors and the runtime for riscv64, from
`multitask/src/arch/riscv/mod.rs`: every context has a record in memory, where its registers are while
another context runs. The records are in the memory of the kernel, which all page tables map in the same way.
-/

namespace Jrinx

structure SwitchHart where
  hart : Hart
  satp : DWord

inductive SwitchInstr where
  | instr (i : Instr)
  | csrrSatp (rd : Reg)
  | csrwSatp (rs : Reg)
  | sfenceVma

namespace SwitchHart

def execInstr (h : SwitchHart) (i : SwitchInstr) : Option SwitchHart :=
  match i with
  | .instr i => (h.hart.execInstr i).map fun hart => { h with hart }
  | .csrrSatp rd => some { h with hart := h.hart.setReg rd h.satp }
  | .csrwSatp rs => some { h with satp := h.hart.reg rs }
  | .sfenceVma => some h

def exec (h : SwitchHart) (code : List SwitchInstr) : Option SwitchHart :=
  match code with
  | [] => some h
  | i :: code => (h.execInstr i).bind fun h => h.exec code

end SwitchHart

-- Of the registers only those of `switchRegs` are fields.
structure SwitchContext where
  regs : Reg → DWord
  satp : DWord

namespace SwitchContext

-- The fields with their places, in the order in which they are saved. `satp` is behind them.
def switchRegs : List (Reg × Nat) :=
  [(.ra, 0), (.sp, 1), (.s0, 2), (.s1, 3), (.s2, 4), (.s3, 5), (.s4, 6), (.s5, 7), (.s6, 8), (.s7, 9),
    (.s8, 10), (.s9, 11), (.s10, 12), (.s11, 13)]

def satpSlot : Nat := 14

def size : Nat := 15 * Hart.xlenb

def newRuntime : SwitchContext where
  regs := fun _ => 0
  satp := 0

def newExecutor (entry stackTop satp : DWord) : SwitchContext where
  regs := Function.update (Function.update newRuntime.regs .ra entry) .sp stackTop
  satp := satp

def initExecutorAddr (ctx : SwitchContext) (executor : DWord) : SwitchContext :=
  { ctx with regs := Function.update ctx.regs .s0 executor }

def slots (ctx : SwitchContext) : List (Nat × DWord) :=
  switchRegs.map (fun p => (p.2, ctx.regs p.1)) ++ [(satpSlot, ctx.satp)]

def store (ctx : SwitchContext) (mem : Memory) (base : DWord) : Memory := mem.storeSlots base ctx.slots

structure Holds (ctx : SwitchContext) (mem : Memory) (base : DWord) : Prop where
  regs : ∀ p ∈ switchRegs, mem.load (Memory.slot base p.2) = ctx.regs p.1
  satp : mem.load (Memory.slot base satpSlot) = ctx.satp

end SwitchContext

namespace SwitchHart

open SwitchContext

def context (h : SwitchHart) : SwitchContext where
  regs := h.hart.reg
  satp := h.satp

def saveCode : List SwitchInstr :=
  switchRegs.map (fun p => .instr (.sd p.1 (p.2 * Hart.xlenb) .a0)) ++
    [.csrrSatp .s0, .instr (.sd .s0 (satpSlot * Hart.xlenb) .a0)]

def restoreCode : List SwitchInstr :=
  [.instr (.ld .s0 (satpSlot * Hart.xlenb) .a1), .csrwSatp .s0, .sfenceVma] ++
    switchRegs.reverse.map (fun p => .instr (.ld p.1 (p.2 * Hart.xlenb) .a1))

def switchContext (h : SwitchHart) : Option SwitchHart :=
  (h.exec (saveCode ++ restoreCode)).map fun h => { h with hart := h.hart.ret }

end SwitchHart

-- `start` is the address of `Executor::start` and `link` the address after the call of it.
def Hart.executorLaunch (h : Hart) (start link : DWord) : Option Hart :=
  (h.exec [.mv .a0 .s0]).map fun h => h.call start link

namespace SwitchContext

variable {ctx : SwitchContext} {mem mem' : Memory} {base : DWord}

theorem slots_lt (ctx : SwitchContext) : ∀ p ∈ ctx.slots, p.1 < 15 := by
  have hslots : ctx.slots.map Prod.fst = switchRegs.map Prod.snd ++ [satpSlot] := rfl
  have hlt : ∀ k ∈ ctx.slots.map Prod.fst, k < 15 := by
    rw [hslots]
    decide
  exact fun p hp => hlt p.1 (List.mem_map_of_mem hp)

theorem nodup_slots (ctx : SwitchContext) : (ctx.slots.map Prod.fst).Nodup := by
  have hslots : ctx.slots.map Prod.fst = switchRegs.map Prod.snd ++ [satpSlot] := rfl
  rw [hslots]
  decide

theorem holds_store (ctx : SwitchContext) (mem : Memory) (base : DWord) : ctx.Holds (ctx.store mem base) base := by
  have hload {k : Nat} {v : DWord} (hmem : (k, v) ∈ ctx.slots)
      : (ctx.store mem base).load (Memory.slot base k) = v :=
    Memory.load_storeSlots_of_mem (fun p hp => Nat.lt_trans (ctx.slots_lt p hp) (by decide))
      ctx.nodup_slots hmem
  constructor
  . intro p hp
    exact hload (List.mem_append_left _ (List.mem_map_of_mem (f := fun p => (p.2, ctx.regs p.1)) hp))
  . exact hload (List.mem_append_right _ List.mem_cons_self)

theorem store_of_not_span {b : DWord} (h : ¬ Memory.Span base size b) : ctx.store mem base b = mem b :=
  Memory.storeSlots_of_not_span ctx.slots_lt (by decide) (by rwa [size, Hart.xlenb, Nat.mul_comm] at h)

theorem Holds.congr (h : ctx.Holds mem base) (hmem : ∀ b, Memory.Span base size b → mem b = mem' b)
    : ctx.Holds mem' base := by
  have hslot {k : Nat} (hk : k < 15) : mem.load (Memory.slot base k) = mem'.load (Memory.slot base k) :=
    Memory.load_slot_congr hk (by decide) (by rwa [size, Hart.xlenb, Nat.mul_comm] at hmem)
  have hlt : ∀ p ∈ switchRegs, p.2 < 15 := by decide
  constructor
  . intro p hp
    rw [← hslot (hlt p hp)]
    exact h.regs p hp
  . rw [← hslot (by decide)]
    exact h.satp

end SwitchContext

namespace SwitchHart

open SwitchContext

variable {h h' : SwitchHart} {ctx : SwitchContext}

theorem exec_append (h : SwitchHart) (code code' : List SwitchInstr)
    : h.exec (code ++ code') = (h.exec code).bind fun h => h.exec code' := by
  induction code generalizing h with
  | nil => rfl
  | cons i code ih =>
    simp only [List.cons_append, exec]
    cases h.execInstr i with
    | none => rfl
    | some h' => exact ih h'

theorem exec_instrs (h : SwitchHart) (code : List Instr)
    : h.exec (code.map .instr) = (h.hart.exec code).map fun hart => { h with hart } := by
  induction code generalizing h with
  | nil => rfl
  | cons i code ih =>
    simp only [List.map_cons, exec, execInstr, Hart.exec]
    cases h.hart.execInstr i with
    | none => rfl
    | some hart => exact ih { h with hart }

-- The record of the context that is left has its registers, `s0` has been overwritten.
def saved (h : SwitchHart) : SwitchHart :=
  {
    h with
    hart :=
      {
        h.hart with
        regs := Function.update h.hart.regs .s0 h.satp
        mem := h.context.store h.hart.mem (h.hart.reg .a0)
      }
  }

theorem exec_saveCode (h : SwitchHart) : h.exec saveCode = some h.saved := by
  have hstore := h.hart.exec_storeRegs .a0 switchRegs
  have hmap : switchRegs.map (fun p => SwitchInstr.instr (.sd p.1 (p.2 * Hart.xlenb) .a0)) =
      (switchRegs.map fun p => Instr.sd p.1 (p.2 * Hart.xlenb) .a0).map .instr := by
    rw [List.map_map]
    rfl
  rw [saveCode, exec_append, hmap, exec_instrs, hstore, Option.map_some, Option.bind_some]
  simp only [saved, SwitchContext.store, SwitchContext.slots, Memory.storeSlots_append]
  rfl

theorem switchRegs_ne : ∀ p ∈ switchRegs.reverse, p.1 ≠ .a1 ∧ p.1 ≠ .zero := by
  decide

-- The registers and `satp` come from the record at `a1`.
def restored (h : SwitchHart) : SwitchHart :=
  let base := h.hart.reg .a1
  let satp := h.hart.mem.load (Memory.slot base satpSlot)
  let regs := Function.update h.hart.regs .s0 satp
  { hart := { h.hart with regs := h.hart.mem.loadSlots base switchRegs.reverse regs }, satp }

theorem exec_restoreCode (h : SwitchHart) : h.exec restoreCode = some h.restored := by
  have hsatp : h.exec [.instr (.ld .s0 (satpSlot * Hart.xlenb) .a1), .csrwSatp .s0, .sfenceVma] =
      some
        {
          hart := h.hart.setReg .s0 (h.hart.mem.load (Memory.slot (h.hart.reg .a1) satpSlot))
          satp := h.hart.mem.load (Memory.slot (h.hart.reg .a1) satpSlot)
        } := by
    simp only [exec, execInstr, Hart.execInstr, Hart.addr_slot, Option.map_some, Option.bind_some]
    rfl
  have hmap : switchRegs.reverse.map (fun p => SwitchInstr.instr (.ld p.1 (p.2 * Hart.xlenb) .a1)) =
      (switchRegs.reverse.map fun p => Instr.ld p.1 (p.2 * Hart.xlenb) .a1).map .instr := by
    rw [List.map_map]
    rfl
  rw [restoreCode, exec_append, hsatp, Option.bind_some, hmap, exec_instrs,
    Hart.exec_loadRegs _ .a1 _ switchRegs_ne]
  rfl

theorem restored_eq (h : SwitchHart)
    : h.restored.hart.mem = h.hart.mem ∧
        h.restored.satp = h.hart.mem.load (Memory.slot (h.hart.reg .a1) satpSlot) ∧
        ∀ p ∈ switchRegs,
          h.restored.hart.reg p.1 = h.hart.mem.load (Memory.slot (h.hart.reg .a1) p.2) := by
  simp only [restored, true_and]
  intro p hp
  have hmem : p ∈ switchRegs.reverse := List.mem_reverse.mpr hp
  rw [Hart.reg, if_neg (switchRegs_ne p hmem).2]
  exact Memory.loadSlots_of_mem (by decide) hmem

theorem switchContext_eq (h : SwitchHart)
    : h.switchContext = some { h.saved.restored with hart := h.saved.restored.hart.ret } := by
  rw [switchContext, exec_append, exec_saveCode, Option.bind_some, exec_restoreCode, Option.map_some]

theorem switchContext_spec (h : SwitchHart)
    : ∃ h', h.switchContext = some h' ∧
        h'.hart.mem = h.context.store h.hart.mem (h.hart.reg .a0) ∧
        ∀ {ctx : SwitchContext}, ctx.Holds h'.hart.mem (h.hart.reg .a1) →
          h'.hart.pc = ctx.regs .ra ∧ (∀ p ∈ switchRegs, h'.hart.reg p.1 = ctx.regs p.1) ∧
            h'.satp = ctx.satp := by
  obtain ⟨hmem, hsatp, hregs⟩ := h.saved.restored_eq
  have ha1 : h.saved.hart.reg .a1 = h.hart.reg .a1 := rfl
  rw [ha1] at hsatp hregs
  refine ⟨_, h.switchContext_eq, hmem, ?_⟩
  generalize h.saved.restored = h' at hmem hsatp hregs ⊢
  intro ctx hholds
  have hload : ctx.Holds h.saved.hart.mem (h.hart.reg .a1) := by
    rw [← hmem]
    exact hholds
  have hregs' (p : Reg × Nat) (hp : p ∈ switchRegs) : h'.hart.ret.reg p.1 = ctx.regs p.1 :=
    (hregs p hp).trans (hload.regs p hp)
  exact ⟨hregs' (.ra, 0) (by decide), hregs', hsatp.trans hload.satp⟩

end SwitchHart

-- The contexts are named by `ι`, only those that were created have a record.
structure Switching (ι : Type) where
  hart : SwitchHart
  current : ι
  created : ι → Bool

inductive SwitchAction (ι : Type) where
  -- The running context does anything that is not a switch.
  | run (h : SwitchHart)
  -- It prepares the record of an executor, in `Executor::new`.
  | create (i : ι) (stackTop executor : DWord)
  -- It calls `switch_context` with its own record and that of another context.
  | switch (i : ι)

namespace Switching

variable {ι : Type} [DecidableEq ι]

def boot (runtime : ι) (hart : SwitchHart) : Switching ι where
  hart
  current := runtime
  created := fun i => decide (i = runtime)

section

-- The addresses of the records and of `executor_launch`.
variable (record : ι → DWord) (launch : DWord)

def create (s : Switching ι) (i : ι) (stackTop executor : DWord) : Switching ι :=
  let ctx := (SwitchContext.newExecutor launch stackTop s.hart.satp).initExecutorAddr executor
  let mem := ctx.store s.hart.hart.mem (record i)
  {
    s with
    hart := { s.hart with hart := { s.hart.hart with mem } }
    created := Function.update s.created i true
  }

def step (s : Switching ι) (a : SwitchAction ι) : Outcome (Switching ι) :=
  match a with
  | .run hart => .next { s with hart }
  | .create i stackTop executor =>
    if s.created i then .disabled else .next (s.create record launch i stackTop executor)
  | .switch i =>
    match s.hart.switchContext with
    | some hart => .next { s with hart, current := i }
    | none => .panic

-- The registers may be changed arbitrarily, but not the records of the other contexts.
def Allowed (s : Switching ι) (a : SwitchAction ι) : Prop :=
  match a with
  | .run h => ∀ i, i ≠ s.current → s.created i = true →
      ∀ b, Memory.Span (record i) SwitchContext.size b → h.hart.mem b = s.hart.hart.mem b
  | .create _ _ _ => True
  | .switch i =>
    s.hart.hart.reg .a0 = record s.current ∧ s.hart.hart.reg .a1 = record i ∧ s.created i = true

end

-- The call of `switch_context` in `h` has returned in `h'`.
structure Resumes (h h' : SwitchHart) : Prop where
  pc : h'.hart.pc = h.hart.reg .ra
  regs : ∀ p ∈ SwitchContext.switchRegs, h'.hart.reg p.1 = h.hart.reg p.1
  satp : h'.satp = h.satp

-- An executor starts, with its address as the argument of `Executor::start`.
structure Starts (launch start link stackTop executor : DWord) (h : SwitchHart) : Prop where
  pc : h.hart.pc = launch
  sp : h.hart.reg .sp = stackTop
  start : ∃ hart, h.hart.executorLaunch start link = some hart ∧ hart.pc = start ∧
    hart.reg .sp = stackTop ∧ hart.reg .a0 = executor

variable {record : ι → DWord} {launch : DWord} {s s' : Switching ι} {i j : ι} {ctx : SwitchContext}

structure Parked (record : ι → DWord) (s : Switching ι) (i : ι) (ctx : SwitchContext) : Prop where
  created : s.created i = true
  ne_current : i ≠ s.current
  holds : ctx.Holds s.hart.hart.mem (record i)

def RecordsApart (record : ι → DWord) : Prop :=
  ∀ i j, i ≠ j → ∀ b, Memory.Span (record i) SwitchContext.size b →
    ¬ Memory.Span (record j) SwitchContext.size b

theorem step_create {stackTop executor : DWord}
    (hstep : s.step record launch (.create i stackTop executor) = .next s')
    : s.created i = false ∧ s' = s.create record launch i stackTop executor := by
  simp only [step] at hstep
  split at hstep
  . simp at hstep
  . next hcreated =>
    simp only [Outcome.next.injEq] at hstep
    exact ⟨Bool.eq_false_iff.mpr hcreated, hstep.symm⟩

theorem step_switch (launch : DWord) (h : s.Allowed record (.switch j))
    : ∃ s', s.step record launch (.switch j) = .next s' ∧ s'.current = j ∧ s'.created = s.created ∧
        s'.hart.hart.mem = s.hart.context.store s.hart.hart.mem (record s.current) ∧
        ∀ {ctx : SwitchContext}, ctx.Holds s'.hart.hart.mem (record j) →
          s'.hart.hart.pc = ctx.regs .ra ∧
            (∀ p ∈ SwitchContext.switchRegs, s'.hart.hart.reg p.1 = ctx.regs p.1) ∧
            s'.hart.satp = ctx.satp := by
  obtain ⟨ha0, ha1, _⟩ := h
  obtain ⟨hart, hswitch, hmem, hloads⟩ := s.hart.switchContext_spec
  rw [ha0] at hmem
  rw [ha1] at hloads
  refine ⟨{ s with hart, current := j }, ?_, rfl, rfl, hmem, hloads⟩
  simp only [step, hswitch]

theorem created_current_step (h : s.created s.current = true) {a : SwitchAction ι}
    (hallowed : s.Allowed record a) (hstep : s.step record launch a = .next s')
    : s'.created s'.current = true := by
  cases a with
  | run hart =>
    simp only [step, Outcome.next.injEq] at hstep
    subst hstep
    exact h
  | create i stackTop executor =>
    obtain ⟨_, rfl⟩ := step_create hstep
    simp only [create, Function.update_apply, h, ite_self]
  | switch j =>
    obtain ⟨s₁, hstep₁, hcurrent, hcreated, _⟩ := step_switch launch hallowed
    cases hstep₁.symm.trans hstep
    rw [hcurrent, hcreated]
    exact hallowed.2.2

theorem Parked.step (hapart : RecordsApart record) (h : Parked record s i ctx) {a : SwitchAction ι}
    (hallowed : s.Allowed record a) (hne : a ≠ .switch i)
    (hstep : s.step record launch a = .next s')
    : Parked record s' i ctx := by
  cases a with
  | run hart =>
    simp only [Switching.step, Outcome.next.injEq] at hstep
    subst hstep
    refine ⟨h.created, h.ne_current, h.holds.congr ?_⟩
    exact fun b hb => (hallowed i h.ne_current h.created b hb).symm
  | create j stackTop executor =>
    obtain ⟨hcreated, rfl⟩ := step_create hstep
    have hij : i ≠ j := by
      rintro rfl
      simp [h.created] at hcreated
    refine ⟨?_, h.ne_current, h.holds.congr ?_⟩
    . simp only [create, Function.update_of_ne hij, h.created]
    . exact fun b hb => (SwitchContext.store_of_not_span (hapart i j hij b hb)).symm
  | switch j =>
    obtain ⟨s₁, hstep₁, hj, hcreated, hmem, _⟩ := step_switch launch hallowed
    cases hstep₁.symm.trans hstep
    refine ⟨?_, ?_, h.holds.congr ?_⟩
    . rw [hcreated]
      exact h.created
    . rw [hj]
      rintro rfl
      exact hne rfl
    . intro b hb
      rw [hmem]
      exact (SwitchContext.store_of_not_span (hapart i s.current h.ne_current b hb)).symm

theorem parked_of_switch (hcreated : s.created s.current = true) (hallowed : s.Allowed record (.switch j))
    (hne : j ≠ s.current) (hstep : s.step record launch (.switch j) = .next s')
    : Parked record s' s.current s.hart.context := by
  obtain ⟨s₁, hstep₁, hj, hcreated₁, hmem, _⟩ := step_switch launch hallowed
  cases hstep₁.symm.trans hstep
  refine ⟨?_, ?_, ?_⟩
  . rw [hcreated₁]
    exact hcreated
  . rw [hj]
    exact hne.symm
  . rw [hmem]
    exact SwitchContext.holds_store _ _ _

theorem parked_of_create {stackTop executor : DWord} (hcreated : s.created s.current = true)
    (hstep : s.step record launch (.create i stackTop executor) = .next s')
    : Parked record s' i
        ((SwitchContext.newExecutor launch stackTop s.hart.satp).initExecutorAddr executor) := by
  obtain ⟨hnew, rfl⟩ := step_create hstep
  refine ⟨?_, ?_, SwitchContext.holds_store _ _ _⟩
  . simp only [create, Function.update_self]
  . intro hi
    have hi' : i = s.current := hi
    rw [hi', hcreated] at hnew
    simp at hnew

theorem Parked.switch (launch : DWord) (hapart : RecordsApart record) (h : Parked record s i ctx)
    (hallowed : s.Allowed record (.switch i))
    : ∃ s', s.step record launch (.switch i) = .next s' ∧ s'.hart.hart.pc = ctx.regs .ra ∧
        (∀ p ∈ SwitchContext.switchRegs, s'.hart.hart.reg p.1 = ctx.regs p.1) ∧
        s'.hart.satp = ctx.satp := by
  obtain ⟨s', hstep, _, _, hmem, hloads⟩ := step_switch launch hallowed
  refine ⟨s', hstep, hloads (h.holds.congr ?_)⟩
  intro b hb
  rw [hmem]
  exact (SwitchContext.store_of_not_span (hapart i s.current h.ne_current b hb)).symm

-- Up to the next switch to `i`.
def AllowedWithout (record : ι → DWord) (i : ι) (s : Switching ι) (a : SwitchAction ι) : Prop :=
  s.Allowed record a ∧ a ≠ .switch i

theorem Parked.run (hapart : RecordsApart record) (h : Parked record s i ctx) {as : List (SwitchAction ι)}
    (hrun : Run (Switching.step record launch) (AllowedWithout record i) s as s')
    : Parked record s' i ctx :=
  hrun.invariant (fun s => Parked record s i ctx) h fun _ _ _ h hallowed hstep =>
    h.step hapart hallowed.1 hallowed.2 hstep

def ComesBack (record : ι → DWord) (launch : DWord) (s : Switching ι) : Prop :=
  ∀ j s₁ as s₂, j ≠ s.current → s.Allowed record (.switch j) →
    s.step record launch (.switch j) = .next s₁ →
      Run (Switching.step record launch) (AllowedWithout record s.current) s₁ as s₂ →
        s₂.Allowed record (.switch s.current) →
          ∃ s₃, s₂.step record launch (.switch s.current) = .next s₃ ∧ Resumes s.hart s₃.hart

def StartsCreated (record : ι → DWord) (launch start link : DWord) (s : Switching ι) : Prop :=
  ∀ i stackTop executor s₁ as s₂,
    s.step record launch (.create i stackTop executor) = .next s₁ →
      Run (Switching.step record launch) (AllowedWithout record i) s₁ as s₂ →
        s₂.Allowed record (.switch i) →
          ∃ s₃, s₂.step record launch (.switch i) = .next s₃ ∧
            Starts launch start link stackTop executor s₃.hart

theorem comesBack (hapart : RecordsApart record) (hcreated : s.created s.current = true)
    : s.ComesBack record launch := by
  intro j s₁ as s₂ hne hallowed hstep hrun hallowed₂
  have hparked := (parked_of_switch hcreated hallowed hne hstep).run hapart hrun
  obtain ⟨s₃, hstep₃, hpc, hregs, hsatp⟩ := hparked.switch launch hapart hallowed₂
  exact ⟨s₃, hstep₃, hpc, hregs, hsatp⟩

theorem resumes_self (hallowed : s.Allowed record (.switch s.current))
    : ∃ s', s.step record launch (.switch s.current) = .next s' ∧ Resumes s.hart s'.hart := by
  obtain ⟨s', hstep, _, _, hmem, hloads⟩ := step_switch launch hallowed
  have hholds : s.hart.context.Holds s'.hart.hart.mem (record s.current) := by
    rw [hmem]
    exact SwitchContext.holds_store _ _ _
  obtain ⟨hpc, hregs, hsatp⟩ := hloads hholds
  exact ⟨s', hstep, hpc, hregs, hsatp⟩

theorem startsCreated {start link : DWord} (hapart : RecordsApart record)
    (hcreated : s.created s.current = true)
    : s.StartsCreated record launch start link := by
  intro i stackTop executor s₁ as s₂ hstep hrun hallowed
  have hparked := (parked_of_create hcreated hstep).run hapart hrun
  obtain ⟨s₃, hstep₃, hpc, hregs, _⟩ := hparked.switch launch hapart hallowed
  have hsp : s₃.hart.hart.reg .sp = stackTop := hregs (.sp, 1) (by decide)
  have hs0 : s₃.hart.hart.reg .s0 = executor := hregs (.s0, 2) (by decide)
  exact ⟨s₃, hstep₃, hpc, hsp, _, rfl, rfl, hsp, hs0⟩

/--
In every state that is reached, with records that are apart: the context that runs comes back from
`switch_context` as it went in, and an executor that is created starts on its own stack with its own address.
-/
theorem contexts_apart {start link : DWord} {runtime : ι} {hart : SwitchHart} {as : List (SwitchAction ι)}
    (hapart : RecordsApart record)
    (hrun : Run (Switching.step record launch) (Allowed record) (boot runtime hart) as s)
    : s.ComesBack record launch ∧
        (s.Allowed record (.switch s.current) →
          ∃ s', s.step record launch (.switch s.current) = .next s' ∧ Resumes s.hart s'.hart) ∧
        s.StartsCreated record launch start link := by
  have hcreated : s.created s.current = true :=
    hrun.invariant (fun s => s.created s.current = true) (by simp [boot])
      fun _ _ _ h hallowed hstep => created_current_step h hallowed hstep
  exact ⟨comesBack hapart hcreated, resumes_self, startsCreated hapart hcreated⟩

-- A runtime that is about to call `switch_context` with the record of an executor.
def runtimeHart : SwitchHart where
  hart :=
    {
      regs := fun r => if r = .a0 then 0x80001000 else if r = .a1 then 0x80002000 else 0
      fregs := fun _ => 0
      csrs := fun _ => 0
      mem := fun _ => 0
      mode := .supervisor
      pc := 0
    }
  satp := 0

def twoRecords (executor : Bool) : DWord := if executor then 0x80002000 else 0x80001000

theorem recordsApart_twoRecords : RecordsApart twoRecords := by
  intro i j hij b hb hb'
  simp only [Memory.Span, SwitchContext.size, Hart.xlenb] at hb hb'
  cases i <;> cases j
  . exact hij rfl
  . simp only [twoRecords, Bool.false_eq_true, if_false, if_true] at hb hb'
    bv_omega
  . simp only [twoRecords, Bool.false_eq_true, if_false, if_true] at hb hb'
    bv_omega
  . exact hij rfl

theorem contexts_apart_firstExecutor
    : ∃ s, Run (Switching.step twoRecords 0x80100000) (Allowed twoRecords) (boot false runtimeHart)
          [.create true 0x80008000 0x80003000] s ∧
        s.Allowed twoRecords (.switch true) ∧ s.ComesBack twoRecords 0x80100000 ∧
        (s.Allowed twoRecords (.switch s.current) →
          ∃ s', s.step twoRecords 0x80100000 (.switch s.current) = .next s' ∧ Resumes s.hart s'.hart) ∧
        s.StartsCreated twoRecords 0x80100000 0x80200000 0x80100008 := by
  have hrun : Run (Switching.step twoRecords 0x80100000) (Allowed twoRecords) (boot false runtimeHart)
      [.create true 0x80008000 0x80003000]
      ((boot false runtimeHart).create twoRecords 0x80100000 true 0x80008000 0x80003000) :=
    .cons trivial rfl (.nil _)
  exact ⟨_, hrun, ⟨rfl, rfl, rfl⟩, contexts_apart recordsApart_twoRecords hrun⟩

end Switching

end Jrinx
