import Jrinx.Driver.EnableBits

/-!
This module contains what `PLICInner::init` and `disable_all` do to the enable bits: they step through the
words of a context four at a time, but count the steps as if they were bytes.
-/

namespace Jrinx

variable {arch : Arch}

theorem foldl_keep {σ α : Type} {f : σ → α → σ} {p : σ → Prop} {l : List α} {s : σ}
    (hkeep : ∀ s a, p s → p (f s a)) (h : p s)
    : p (l.foldl f s) := by
  induction l generalizing s with
  | nil => exact h
  | cons a l ih => exact ih (hkeep s a h)

theorem foldl_of_mem {σ α : Type} {f : σ → α → σ} {p : σ → Prop} {l : List α} {a : α} {s : σ} (ha : a ∈ l)
    (hset : ∀ s, p (f s a)) (hkeep : ∀ s b, p s → p (f s b))
    : p (l.foldl f s) := by
  induction l generalizing s with
  | nil => simp at ha
  | cons b l ih =>
    rcases List.mem_cons.mp ha with rfl | ha
    . rw [List.foldl_cons]
      exact foldl_keep hkeep (hset s)
    . exact ih ha

theorem foldl_eq {σ α β : Type} {f : σ → α → σ} {o : σ → β} {l : List α} {s : σ}
    (h : ∀ a ∈ l, ∀ s, o (f s a) = o s)
    : o (l.foldl f s) = o s := by
  induction l generalizing s with
  | nil => rfl
  | cons a l ih =>
    rw [List.foldl_cons, ih fun b hb => h b (List.mem_cons_of_mem a hb)]
    exact h a List.mem_cons_self s

namespace PlicOffset

-- The words that `disable_all` clears.
def disabled (contextId i : Nat) : Nat := 0x2000 + 0x80 * contextId + 16 * i

def word (contextId k : Nat) : Nat := 0x2000 + 0x80 * contextId + 4 * k

def OfContext (contextId offset : Nat) : Prop :=
  (0x2000 + 0x80 * contextId ≤ offset ∧ offset < 0x2000 + 0x80 * (contextId + 1)) ∨
    (0x200000 + 0x1000 * contextId ≤ offset ∧ offset < 0x200000 + 0x1000 * (contextId + 1))

end PlicOffset

theorem regAt_mod {base : VirtAddr arch} {n m : Nat} (h : regAt base n = regAt base m) : n % 16 = m % 16 := by
  have hbits : 16 ∣ 2 ^ arch.bits := by
    cases arch <;> decide
  have hoffset : BitVec.ofNat arch.bits n = BitVec.ofNat arch.bits m := by
    simpa [regAt] using h
  have htoNat := congrArg BitVec.toNat hoffset
  rw [BitVec.toNat_ofNat, BitVec.toNat_ofNat] at htoNat
  rw [← Nat.mod_mod_of_dvd n hbits, htoNat, Nat.mod_mod_of_dvd m hbits]

namespace PlicInner

variable {base : VirtAddr arch} {inner : PlicInner arch} {regs : PlicRegs arch} {contextId : Nat}

theorem addr_disabled (hnew : new base = some inner) (contextId i : Nat)
    : (inner.enableBase.add (contextId * plicEnableContextOffset + i * 4)).addr =
        regAt base (PlicOffset.disabled contextId i) := by
  rw [Mmio.addr_add (new_eq_some hnew).2.1, PlicOffset.disabled, plicEnableContextOffset]
  congr 1
  omega

theorem write_zero {m : Mmio arch} {addr : VirtAddr arch} (hzero : regs addr = 0) : regs.write m 0 addr = 0 := by
  rw [PlicRegs.write, Function.update_apply, hzero, ite_self]

theorem disableAll_zero {addr : VirtAddr arch} (hzero : regs addr = 0)
    : inner.disableAll regs contextId addr = 0 :=
  foldl_keep (p := fun regs : PlicRegs arch => regs addr = 0) (fun _ _ => write_zero) hzero

theorem setThreshold_zero {addr : VirtAddr arch} (hzero : regs addr = 0)
    : inner.setThreshold regs contextId 0 addr = 0 :=
  write_zero hzero

theorem disableAll_of_mem (hnew : new base = some inner) {i : Nat} (hi : i < 128)
    : inner.disableAll regs contextId (regAt base (PlicOffset.disabled contextId i)) = 0 := by
  refine foldl_of_mem
    (p := fun regs : PlicRegs arch => regs (regAt base (PlicOffset.disabled contextId i)) = 0)
    (List.mem_range.mpr hi) ?_ (fun _ _ => write_zero)
  intro regs
  rw [PlicRegs.write, addr_disabled hnew, Function.update_self]

theorem disableAll_of_ne (hnew : new base = some inner) {addr : VirtAddr arch}
    (hne : ∀ i < 128, addr ≠ regAt base (PlicOffset.disabled contextId i))
    : inner.disableAll regs contextId addr = regs addr := by
  apply foldl_eq (o := fun regs : PlicRegs arch => regs addr)
  intro i hi regs
  rw [PlicRegs.write, addr_disabled hnew]
  exact Function.update_of_ne (hne i (List.mem_range.mp hi)) _ _

theorem init_of_context {max contextId : Nat} {addr : VirtAddr arch} (hcontext : contextId ≤ max)
    (hset : ∀ regs : PlicRegs arch, inner.setThreshold (inner.disableAll regs contextId) contextId 0 addr = 0)
    : inner.init regs max addr = 0 :=
  foldl_of_mem (p := fun regs : PlicRegs arch => regs addr = 0) (List.mem_range.mpr (by omega)) hset
    (fun _ _ h => setThreshold_zero (disableAll_zero h))

theorem init_threshold (hnew : new base = some inner) {max contextId : Nat} (hcontext : contextId ≤ max)
    : (inner.init regs max).threshold base contextId = 0 := by
  apply init_of_context hcontext
  intro regs
  rw [setThreshold, PlicRegs.write, addr_thresholdReg hnew, Function.update_self]
  rfl

theorem init_disabled (hnew : new base = some inner) {max contextId i : Nat} (hcontext : contextId ≤ max)
    (hi : i < 128)
    : inner.init regs max (regAt base (PlicOffset.disabled contextId i)) = 0 := by
  apply init_of_context hcontext
  intro regs
  exact setThreshold_zero (disableAll_of_mem hnew hi)

theorem init_of_mod (hnew : new base = some inner) {max offset : Nat} (hmod : offset % 16 ≠ 0)
    : inner.init regs max (regAt base offset) = regs (regAt base offset) := by
  apply foldl_eq (o := fun regs : PlicRegs arch => regs (regAt base offset))
  intro i _ regs
  have hthreshold : regAt base offset ≠ (inner.thresholdReg i).addr := by
    intro heq
    have := regAt_mod (heq.trans (addr_thresholdReg hnew i))
    simp only [PlicOffset.threshold] at this
    omega
  have hdisabled (j : Nat) (_ : j < 128) : regAt base offset ≠ regAt base (PlicOffset.disabled i j) := by
    intro heq
    have := regAt_mod heq
    simp only [PlicOffset.disabled] at this
    omega
  rw [setThreshold, PlicRegs.write, Function.update_of_ne hthreshold, disableAll_of_ne hnew hdisabled]

theorem enable_eq_word (contextId irqNum : Nat)
    : PlicOffset.enable contextId irqNum = PlicOffset.word contextId (irqNum / 32) := rfl

theorem word_eq_disabled {contextId k : Nat} (h : k % 4 = 0)
    : PlicOffset.word contextId k = PlicOffset.disabled contextId (k / 4) := by
  simp only [PlicOffset.word, PlicOffset.disabled]
  omega

/--
After `init` no source is enabled in a context up to the last one, and their thresholds are 0.
-/
structure Masked (inner : PlicInner arch) (base : VirtAddr arch) (regs : PlicRegs arch) (max : Nat) : Prop where
  enableBit : ∀ contextId ≤ max, ∀ irqNum, Plic.isValid irqNum →
    (inner.init regs max).enableBit base contextId irqNum = false
  threshold : ∀ contextId ≤ max, (inner.init regs max).threshold base contextId = 0

/--
`disable_all` clears the enable bits of its context, and the registers of the other contexts are as they were.
-/
structure DisablesOnly (inner : PlicInner arch) (base : VirtAddr arch) (regs : PlicRegs arch)
    (contextId : Nat) : Prop where
  cleared : ∀ k < 32, inner.disableAll regs contextId (regAt base (PlicOffset.word contextId k)) = 0
  others : ∀ c ≤ PlicOffset.maxContext, c ≠ contextId → ∀ offset, offset % 4 = 0 → PlicOffset.OfContext c offset →
    inner.disableAll regs contextId (regAt base offset) = regs (regAt base offset)

/--
The words that `init` and `disable_all` skip are 0 already, and so are those that `disable_all` reaches in the
15 contexts after its own.
-/
structure AlreadyMasked (base : VirtAddr arch) (regs : PlicRegs arch) (max contextId : Nat) : Prop where
  contexts : ∀ c ≤ max, ∀ k < 32, k % 4 ≠ 0 → regs (regAt base (PlicOffset.word c k)) = 0
  context : ∀ k < 32, k % 4 ≠ 0 → regs (regAt base (PlicOffset.word contextId k)) = 0
  following : ∀ c ≤ PlicOffset.maxContext, contextId < c → c < contextId + 16 → ∀ k < 32, k % 4 = 0 →
    regs (regAt base (PlicOffset.word c k)) = 0

theorem masked_iff (hnew : new base = some inner) {max : Nat}
    : Masked inner base regs max ↔
        ∀ c ≤ max, ∀ k < 32, k % 4 ≠ 0 → regs (regAt base (PlicOffset.word c k)) = 0 := by
  have hskip (c k : Nat) (hk : k % 4 ≠ 0)
      : inner.init regs max (regAt base (PlicOffset.word c k)) = regs (regAt base (PlicOffset.word c k)) := by
    apply init_of_mod hnew
    simp only [PlicOffset.word]
    omega
  constructor
  . intro h c hc k hk hmod
    rw [← hskip c k hmod]
    apply BitVec.eq_of_getLsbD_eq
    intro j hj
    have hbit := h.enableBit c hc (32 * k + j) (by simp only [Plic.isValid, Plic.irqRange]; omega)
    have hdiv : (32 * k + j) / 32 = k := by
      omega
    have hres : (32 * k + j) % 32 = j := by
      omega
    rw [PlicRegs.enableBit, enable_eq_word, hdiv, hres] at hbit
    rw [hbit, BitVec.ofNat_eq_ofNat, BitVec.getLsbD_zero]
  . intro h
    refine ⟨fun c hc irqNum hvalid => ?_, fun c hc => init_threshold hnew hc⟩
    have hword : inner.init regs max (regAt base (PlicOffset.word c (irqNum / 32))) = 0 := by
      by_cases hmod : irqNum / 32 % 4 = 0
      . rw [word_eq_disabled hmod]
        refine init_disabled hnew hc ?_
        simp only [Plic.isValid, Plic.irqRange] at hvalid
        omega
      . rw [hskip c _ hmod]
        refine h c hc _ ?_ hmod
        simp only [Plic.isValid, Plic.irqRange] at hvalid
        omega
    rw [PlicRegs.enableBit, enable_eq_word, hword]
    exact BitVec.getLsbD_zero

theorem word_lt {c k : Nat} (hc : c ≤ PlicOffset.maxContext + 15) (hk : k < 32)
    : PlicOffset.word c k < 2 ^ 32 := by
  simp only [PlicOffset.word, PlicOffset.maxContext] at *
  omega

theorem exists_disabled_iff {offset : Nat}
    : (∃ i < 128, offset = PlicOffset.disabled contextId i) ↔
        ∃ c k, contextId ≤ c ∧ c < contextId + 16 ∧ k < 32 ∧ k % 4 = 0 ∧ offset = PlicOffset.word c k := by
  simp only [PlicOffset.disabled, PlicOffset.word]
  constructor
  . rintro ⟨i, hi, rfl⟩
    exact ⟨contextId + i / 8, 4 * (i % 8), by omega, by omega, by omega, by omega, by omega⟩
  . rintro ⟨c, k, hle, hlt, hk, hmod, rfl⟩
    exact ⟨8 * (c - contextId) + k / 4, by omega, by omega⟩

theorem disableAll_word (hnew : new base = some inner) {c k : Nat} (hle : contextId ≤ c) (hlt : c < contextId + 16)
    (hk : k < 32) (hmod : k % 4 = 0)
    : inner.disableAll regs contextId (regAt base (PlicOffset.word c k)) = 0 := by
  obtain ⟨i, hi, heq⟩ := exists_disabled_iff.mpr ⟨c, k, hle, hlt, hk, hmod, rfl⟩
  rw [heq]
  exact disableAll_of_mem hnew hi

theorem disableAll_of_not_disabled (hnew : new base = some inner) (hcontext : contextId ≤ PlicOffset.maxContext)
    {offset : Nat} (hoffset : offset < 2 ^ 32) (hnot : ¬ ∃ i < 128, offset = PlicOffset.disabled contextId i)
    : inner.disableAll regs contextId (regAt base offset) = regs (regAt base offset) := by
  apply disableAll_of_ne hnew
  intro i hi heq
  have hlt : PlicOffset.disabled contextId i < 2 ^ 32 := by
    simp only [PlicOffset.disabled, PlicOffset.maxContext] at *
    omega
  exact hnot ⟨i, hi, (regAt_inj hoffset hlt).mp heq⟩

theorem cleared_iff (hnew : new base = some inner) (hcontext : contextId ≤ PlicOffset.maxContext)
    : (∀ k < 32, inner.disableAll regs contextId (regAt base (PlicOffset.word contextId k)) = 0) ↔
        ∀ k < 32, k % 4 ≠ 0 → regs (regAt base (PlicOffset.word contextId k)) = 0 := by
  have hskip (k : Nat) (hk : k < 32) (hmod : k % 4 ≠ 0)
      : inner.disableAll regs contextId (regAt base (PlicOffset.word contextId k)) =
          regs (regAt base (PlicOffset.word contextId k)) := by
    apply disableAll_of_not_disabled hnew hcontext (word_lt (by omega) hk)
    simp only [PlicOffset.word, PlicOffset.disabled]
    omega
  constructor
  . intro h k hk hmod
    rw [← hskip k hk hmod]
    exact h k hk
  . intro h k hk
    by_cases hmod : k % 4 = 0
    . exact disableAll_word hnew (by omega) (by omega) hk hmod
    . rw [hskip k hk hmod]
      exact h k hk hmod

theorem others_iff (hnew : new base = some inner) (hcontext : contextId ≤ PlicOffset.maxContext)
    : (∀ c ≤ PlicOffset.maxContext, c ≠ contextId → ∀ offset, offset % 4 = 0 → PlicOffset.OfContext c offset →
        inner.disableAll regs contextId (regAt base offset) = regs (regAt base offset)) ↔
        ∀ c ≤ PlicOffset.maxContext, contextId < c → c < contextId + 16 → ∀ k < 32, k % 4 = 0 →
          regs (regAt base (PlicOffset.word c k)) = 0 := by
  constructor
  . intro h c hc hgt hlt k hk hmod
    rw [← h c hc (by omega) (PlicOffset.word c k) (by simp only [PlicOffset.word]; omega)
      (.inl (by simp only [PlicOffset.word]; omega))]
    exact disableAll_word hnew (by omega) hlt hk hmod
  . intro h c hc hne offset _ hoffset
    by_cases hdisabled : ∃ i < 128, offset = PlicOffset.disabled contextId i
    . obtain ⟨c', k, hle, hlt, hk, hmod, rfl⟩ := exists_disabled_iff.mp hdisabled
      have hsame : c' = c := by
        simp only [PlicOffset.OfContext, PlicOffset.word, PlicOffset.maxContext] at *
        omega
      rw [h c' (by omega) (by omega) hlt k hk hmod]
      exact disableAll_zero (h c' (by omega) (by omega) hlt k hk hmod)
    . apply disableAll_of_not_disabled hnew hcontext ?_ hdisabled
      simp only [PlicOffset.OfContext, PlicOffset.maxContext] at *
      omega

/--
`init` masks everything and `disable_all` disables its own context only, exactly for the registers that hold
0 already in the words that the one skips and in the words that the other takes for its own.
-/
theorem starts_masked_iff (hnew : new base = some inner) (regs : PlicRegs arch) (max : Nat)
    (hcontext : contextId ≤ PlicOffset.maxContext)
    : Masked inner base regs max ∧ DisablesOnly inner base regs contextId ↔
        AlreadyMasked base regs max contextId := by
  constructor
  . rintro ⟨hmasked, hdisables⟩
    constructor
    case contexts => exact (masked_iff hnew).mp hmasked
    case context => exact (cleared_iff hnew hcontext).mp hdisables.cleared
    case following => exact (others_iff hnew hcontext).mp hdisables.others
  . intro h
    refine ⟨(masked_iff hnew).mpr h.contexts, ?_⟩
    constructor
    case cleared => exact (cleared_iff hnew hcontext).mpr h.context
    case others => exact (others_iff hnew hcontext).mpr h.following

theorem starts_masked_reset
    : ∃ inner : PlicInner .riscv64, new 0xc000000 = some inner ∧
        (Masked inner 0xc000000 (fun _ => 0) 7 ∧ DisablesOnly inner 0xc000000 (fun _ => 0) 1 ↔
          AlreadyMasked (0xc000000 : VirtAddr .riscv64) (fun _ => 0) 7 1) := by
  obtain ⟨inner, hnew⟩ : ∃ inner : PlicInner .riscv64, new 0xc000000 = some inner := exists_new (by decide)
  exact ⟨inner, hnew, starts_masked_iff hnew (fun _ => 0) 7 (by decide)⟩

-- Source 32 of context 0 stays enabled.
theorem not_masked
    : ∃ inner : PlicInner .riscv64, new 0xc000000 = some inner ∧
        ¬ (Masked inner 0xc000000 (fun _ => BitVec.allOnes 32) 0 ∧
            DisablesOnly inner 0xc000000 (fun _ => BitVec.allOnes 32) 0) := by
  obtain ⟨inner, hnew⟩ : ∃ inner : PlicInner .riscv64, new 0xc000000 = some inner := exists_new (by decide)
  refine ⟨inner, hnew, ?_⟩
  rintro ⟨hmasked, -⟩
  have hbit := hmasked.enableBit 0 (Nat.le_refl 0) 32 (by decide)
  rw [PlicRegs.enableBit, enable_eq_word, init_of_mod hnew (by decide)] at hbit
  exact absurd hbit (by decide)

end PlicInner

end Jrinx
